import MailServer.Lib.InsertionMap
import MailServer.Store.ValueClass

/-!
# Principals and permission sets

The records of the internal directory (`directory/src/lib.rs`, `directory/src/core/principal.rs`)
and the bit sets that hold permissions (`trc/src/ipc/bitset.rs`).  Which permissions an ordinary
user and a tenant administrator have is a table of the server; nothing here depends on what is in
it, so it is a parameter.

Principal results: `has_union`, `has_intersection`, `has_difference`, `has_set`, `has_all` — what a
bit set holds after each operation; `grantedPermissions_enabled`, `grantedPermissions_disabled` —
the two sets that are read off a principal hold what it grants and what it denies.
-/

namespace MailServer.Directory

open MailServer.Store InsertionMap

/-! ## Permission sets -/

def PERMISSION_COUNT : ℕ := 266

/-- A permission is its number. -/
abbrev Permission := Fin PERMISSION_COUNT

def IMPERSONATE : Permission := ⟨0, by decide⟩

def Permission.fromId (id : UInt32) : Option Permission :=
  if h : id.toNat < PERMISSION_COUNT then some ⟨id.toNat, h⟩ else none

/-- `Permission::COUNT.div_ceil(size_of::<u32>())`. -/
def PERMISSIONS_BITSET_SIZE : ℕ := (PERMISSION_COUNT + 3) / 4

/-- `Bitset<PERMISSIONS_BITSET_SIZE>`, the words one after the other. -/
structure Permissions where
  bits : BitVec (64 * PERMISSIONS_BITSET_SIZE)

namespace Permissions

def new : Permissions := ⟨0⟩

def all : Permissions := ⟨BitVec.allOnes _⟩

def set (index : ℕ) (s : Permissions) : Permissions := ⟨s.bits ||| BitVec.twoPow _ index⟩

def get (index : ℕ) (s : Permissions) : Bool := s.bits.getLsbD index

def union (s other : Permissions) : Permissions := ⟨s.bits ||| other.bits⟩

def intersection (s other : Permissions) : Permissions := ⟨s.bits &&& other.bits⟩

def difference (s other : Permissions) : Permissions := ⟨s.bits &&& ~~~other.bits⟩

variable {s other : Permissions} {index : ℕ}

/-- A set holds a permission. -/
def has (s : Permissions) (p : Permission) : Prop := s.get p.val

instance (s : Permissions) (p : Permission) : Decidable (s.has p) :=
  inferInstanceAs (Decidable (_ = true))

variable {p : Permission}

theorem lt_size (p : Permission) : p.val < 64 * PERMISSIONS_BITSET_SIZE :=
  Nat.lt_of_lt_of_le p.isLt (by decide)

@[simp] theorem has_new : ¬new.has p := by
  simp [has, get, new]

@[simp] theorem has_all : all.has p := by
  simp [has, get, all, lt_size p]

@[simp] theorem has_union : (s.union other).has p ↔ s.has p ∨ other.has p := by
  simp [has, get, union]

@[simp] theorem has_intersection : (s.intersection other).has p ↔ s.has p ∧ other.has p := by
  simp [has, get, intersection]

@[simp] theorem has_difference : (s.difference other).has p ↔ s.has p ∧ ¬other.has p := by
  simp [has, get, difference, lt_size p]

@[simp] theorem has_set : (s.set index).has p ↔ s.has p ∨ index = p.val := by
  have hlt := lt_size p
  simp only [has, get, set, BitVec.getLsbD_or, BitVec.getLsbD_twoPow, Bool.or_eq_true,
    Bool.and_eq_true, decide_eq_true_eq]
  exact or_congr_right ⟨fun h => h.2, fun h => ⟨h ▸ hlt, h⟩⟩

end Permissions

/-- The permissions that are granted and those that are denied. -/
structure RolePermissions where
  enabled : Permissions
  disabled : Permissions

namespace RolePermissions

/-- `RolePermissions::default()`. -/
def empty : RolePermissions := ⟨.new, .new⟩

def union (s other : RolePermissions) : RolePermissions :=
  ⟨s.enabled.union other.enabled, s.disabled.union other.disabled⟩

def finalize (s : RolePermissions) : Permissions := s.enabled.difference s.disabled

/-- A grant or a denial is added. -/
def add (s : RolePermissions) (index : ℕ) (grant : Bool) : RolePermissions :=
  if grant then { s with enabled := s.enabled.set index }
  else { s with disabled := s.disabled.set index }

variable {s other : RolePermissions} {index : ℕ} {grant : Bool} {p : Permission}

@[simp] theorem enabled_union :
    (s.union other).enabled.has p ↔ s.enabled.has p ∨ other.enabled.has p :=
  Permissions.has_union

@[simp] theorem disabled_union :
    (s.union other).disabled.has p ↔ s.disabled.has p ∨ other.disabled.has p :=
  Permissions.has_union

theorem enabled_add :
    (s.add index grant).enabled.has p ↔ s.enabled.has p ∨ grant ∧ index = p.val := by
  unfold add
  cases grant <;> simp

theorem disabled_add :
    (s.add index grant).disabled.has p ↔ s.disabled.has p ∨ grant = false ∧ index = p.val := by
  unfold add
  cases grant <;> simp

end RolePermissions

/-! ## Principals -/

inductive PrincipalType where
  | individual | group | resource | location | list | other | domain | tenant | role | apiKey
  | oauthClient
  deriving DecidableEq

inductive PrincipalData where
  | password (secret : String)
  | tenant (id : UInt32)
  | memberOf (id : UInt32)
  | role (id : UInt32)
  | list (id : UInt32)
  | permission (permissionId : UInt32) (grant : Bool)
  | diskQuota (quota : UInt64)
  | directoryQuota (quota : UInt32) (typ : PrincipalType)
  | objectQuota (quota : UInt32) (typ : Collection)
  | description (text : String)
  | primaryEmail (address : String)
  | emailAlias (address : String)
  | picture (text : String)
  | externalMember (address : String)
  | url (text : String)
  | locale (text : String)
  | appPassword (secret : String)
  | otpAuth (secret : String)

structure Principal where
  id : UInt32
  typ : PrincipalType
  name : String
  data : List PrincipalData

variable {principal : Principal}

def PrincipalData.roleId : PrincipalData → Option UInt32
  | .role id => some id
  | _ => none

def Principal.roles (principal : Principal) : List UInt32 :=
  principal.data.filterMap PrincipalData.roleId

structure PermissionGrant where
  permission : Permission
  grant : Bool

def PrincipalData.permissionGrant : PrincipalData → Option PermissionGrant
  | .permission permissionId grant =>
    (Permission.fromId permissionId).map fun permission => ⟨permission, grant⟩
  | _ => none

def Principal.permissions (principal : Principal) : List PermissionGrant :=
  principal.data.filterMap PrincipalData.permissionGrant

/-- `Principal::quota`: the first one that is not zero. -/
def Principal.quota (principal : Principal) : Option UInt64 :=
  principal.data.findSome? fun
    | .diskQuota quota => if 0 < quota then some quota else none
    | _ => none

def Principal.intoEmailAddresses (principal : Principal) : List String :=
  principal.data.filterMap fun
    | .primaryEmail address => some address
    | .emailAlias address => some address
    | _ => none

/-- The loop that adds the permissions of a principal to an empty set. -/
def Principal.grantedPermissions (principal : Principal) : RolePermissions :=
  principal.permissions.foldl (fun s entry => s.add entry.permission.val entry.grant) .empty

/-! ## What a principal grants and denies -/

/-- An entry of the principal's own about a permission. -/
def Principal.Assigns (principal : Principal) (p : Permission) (grant : Bool) : Prop :=
  ∃ permissionId, permissionId.toNat = p.val ∧ .permission permissionId grant ∈ principal.data

theorem Permission.fromId_eq_some {id : UInt32} {p : Permission} :
    Permission.fromId id = some p ↔ id.toNat = p.val := by
  unfold Permission.fromId
  constructor
  · intro h
    split at h
    · cases h
      rfl
    · cases h
  · intro h
    rw [dif_pos (h ▸ p.isLt)]
    exact congrArg some (Fin.ext h)

theorem assigns_iff {p : Permission} {grant : Bool} :
    principal.Assigns p grant ↔ ⟨p, grant⟩ ∈ principal.permissions := by
  unfold Principal.permissions Principal.Assigns
  rw [List.mem_filterMap]
  constructor
  · rintro ⟨id, hid, hmem⟩
    refine ⟨_, hmem, ?_⟩
    simp [PrincipalData.permissionGrant, Permission.fromId_eq_some.2 hid]
  · rintro ⟨item, hmem, hitem⟩
    cases item <;> simp only [PrincipalData.permissionGrant, reduceCtorEq] at hitem
    case permission id grant' =>
      obtain ⟨q, hq, heq⟩ := Option.map_eq_some_iff.1 hitem
      cases heq
      exact ⟨id, Permission.fromId_eq_some.1 hq, hmem⟩

theorem foldl_add (entries : List PermissionGrant) (s : RolePermissions) (p : Permission) :
    ((entries.foldl (fun s entry => s.add entry.permission.val entry.grant) s).enabled.has p ↔
        s.enabled.has p ∨ ⟨p, true⟩ ∈ entries) ∧
      ((entries.foldl (fun s entry => s.add entry.permission.val entry.grant) s).disabled.has p ↔
        s.disabled.has p ∨ ⟨p, false⟩ ∈ entries) := by
  have hentry : ∀ (entry : PermissionGrant) grant,
      (entry.grant = grant ∧ entry.permission.val = p.val) ↔ ⟨p, grant⟩ = entry := by
    rintro ⟨q, g⟩ grant
    rw [PermissionGrant.mk.injEq, Fin.ext_iff]
    exact ⟨fun h => ⟨h.2.symm, h.1.symm⟩, fun h => ⟨h.2.symm, h.1.symm⟩⟩
  induction entries generalizing s with
  | nil => simp
  | cons entry entries ih =>
    obtain ⟨henabled, hdisabled⟩ := ih (s.add entry.permission.val entry.grant)
    rw [List.foldl_cons, henabled, hdisabled, RolePermissions.enabled_add,
      RolePermissions.disabled_add, hentry, hentry, List.mem_cons, List.mem_cons, or_assoc,
      or_assoc]
    exact ⟨Iff.rfl, Iff.rfl⟩

theorem grantedPermissions_enabled {p : Permission} :
    principal.grantedPermissions.enabled.has p ↔ principal.Assigns p true := by
  rw [assigns_iff]
  unfold Principal.grantedPermissions
  rw [(foldl_add _ _ _).1]
  exact or_iff_right Permissions.has_new

theorem grantedPermissions_disabled {p : Permission} :
    principal.grantedPermissions.disabled.has p ↔ principal.Assigns p false := by
  rw [assigns_iff]
  unfold Principal.grantedPermissions
  rw [(foldl_add _ _ _).2]
  exact or_iff_right Permissions.has_new

end MailServer.Directory
