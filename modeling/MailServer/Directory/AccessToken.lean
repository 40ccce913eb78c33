import MailServer.Lib.Fallible
import MailServer.Directory.RoleOrder

/-!
# Access tokens

The access token of a principal (`common/src/auth/access_token.rs`): what
`build_access_token_from_principal` reads off the record, off the roles, off the tenant, off the
groups and off the rights that were granted.  The limiters, the revision, which is drawn at random,
and the size that is kept for the cache are left out.

Principal results: `buildAccessToken_spec`; `foldlM_takeData_spec` — what the loop over the record
gathers from grants and roles.
-/

namespace MailServer.Directory

open MailServer.Store InsertionMap StackWalk List

/-! ## The token -/

structure TenantInfo where
  id : UInt32
  quota : UInt64

structure AccessToken where
  primaryId : UInt32
  memberOf : List UInt32
  accessTo : InsertionMap UInt32 UInt64
  tenant : Option TenantInfo
  name : String
  description : Option String
  locale : Option String
  emails : List String
  quota : UInt64
  objectQuota : Collection → UInt32
  permissions : Permissions

def AccessToken.isMember (token : AccessToken) (accountId : UInt32) : Bool :=
  token.primaryId == accountId || token.memberOf.contains accountId ||
    token.permissions.get IMPERSONATE.val

/-- Whether the server was built with the enterprise features, and is licensed for them. -/
inductive Edition where
  | withoutFeatures | downgraded | enterprise

/-- The settings of the server that a token depends on. -/
structure Server where
  table : PermissionTable
  edition : Edition
  maxObjects : Collection → UInt32

/-- What the loop over the record of a principal gathers. -/
structure Draft where
  rolePermissions : RolePermissions
  objectQuota : Collection → UInt32
  description : Option String
  tenantId : Option UInt32
  quota : Option UInt64
  locale : Option String
  memberOf : List UInt32
  emails : List String

def Draft.new (server : Server) : Draft :=
  ⟨.empty, server.maxObjects, none, none, none, none, [], []⟩

section

variable (server : Server) (d : DirectoryStore)

/-- One entry of the record. -/
def takeData (state : Draft × RoleCache) (data : PrincipalData) :
    Except (BuildError × RoleCache) (Draft × RoleCache) :=
  let (draft, cache) := state
  match data with
  | .tenant id => .ok ({ draft with tenantId := some id }, cache)
  | .memberOf id => .ok ({ draft with memberOf := draft.memberOf ++ [id] }, cache)
  | .role id => do
    let built ← getRolePermissions server.table d cache id
    .ok ({ draft with rolePermissions := draft.rolePermissions.union built.permissions },
      built.cache)
  | .permission permissionId grant =>
    .ok ({ draft with rolePermissions := draft.rolePermissions.add permissionId.toNat grant },
      cache)
  | .diskQuota quota => .ok ({ draft with quota := some quota }, cache)
  | .objectQuota quota typ =>
    .ok ({ draft with objectQuota := Function.update draft.objectQuota typ quota }, cache)
  | .description text => .ok ({ draft with description := some text }, cache)
  | .primaryEmail address => .ok ({ draft with emails := address :: draft.emails }, cache)
  | .emailAlias address => .ok ({ draft with emails := draft.emails ++ [address] }, cache)
  | .locale text => .ok ({ draft with locale := some text }, cache)
  | _ => .ok (draft, cache)

/-- The loop over the record. -/
def gatherData (cache : RoleCache) (data : List PrincipalData) :
    Except (BuildError × RoleCache) (Draft × RoleCache) :=
  data.foldlM (takeData server d) (Draft.new server, cache)

/-- The permissions that the tenant leaves, and what is kept of the tenant. -/
def limitToTenant (cache : RoleCache) (permissions : Permissions) (tenantId : Option UInt32) :
    Except (BuildError × RoleCache) (Permissions × Option TenantInfo × RoleCache) :=
  match server.edition, tenantId with
  | .withoutFeatures, _ => .ok (permissions, none, cache)
  | _, none => .ok (permissions, none, cache)
  | .enterprise, some tenantId => do
    let built ← getRolePermissions server.table d cache tenantId
    match d.query tenantId with
    | none => .error (.tenantNotFound tenantId, built.cache)
    | some tenant =>
      .ok (permissions.intersection built.permissions.enabled,
        some ⟨tenantId, tenant.quota.getD 0⟩, built.cache)
  | .downgraded, some _ => do
    let built ← getRolePermissions server.table d cache ROLE_USER
    .ok (permissions.intersection built.permissions.enabled, none, built.cache)

/-- The addresses of the groups that a principal is in. -/
def groupEmails (memberOf : List UInt32) : List String :=
  memberOf.flatMap fun groupId =>
    match d.query groupId with
    | some group => if group.typ = .group then group.intoEmailAddresses else []
    | none => []

def childCollection : Collection → Option Collection
  | .mailbox => some .email
  | .calendar => some .calendarEvent
  | .addressBook => some .contactCard
  | .fileNode => some .fileNode
  | .calendarEventNotification => some .calendarEventNotification
  | _ => none

/-- `Bitmap::insert`. -/
def insertCollection (bitmap : UInt64) (collection : Collection) : UInt64 :=
  bitmap ||| 1 <<< collection.toU8.toUInt64

/-- The collections that `Acl::Read` and `Acl::ReadItems` open. -/
def grantedCollections (item : AclItem) : UInt64 :=
  let collections := if item.permissions &&& 1 ≠ 0 then insertCollection 0 item.toCollection else 0
  if item.permissions &&& 8 ≠ 0 then
    match childCollection item.toCollection with
    | some child => insertCollection collections child
    | none => collections
  else collections

/-- One right that was granted to the account or to one of its groups. -/
def takeAclItem (cache : RoleCache) (token : AccessToken) (item : AclItem) :
    Except (BuildError × RoleCache) AccessToken :=
  if token.isMember item.toAccountId then .ok token
  else if item.toCollection = .none then .error (.corruptedCollection item, cache)
  else if grantedCollections item = 0 then .ok token
  else
    .ok { token with accessTo :=
      InsertionMap.alter item.toAccountId 0 (· ||| grantedCollections item) token.accessTo }

/-- `build_access_token_from_principal`. -/
def buildAccessToken (cache : RoleCache) (principal : Principal) :
    Except (BuildError × RoleCache) (AccessToken × RoleCache) := do
  let (draft, cache) ← gatherData server d cache principal.data
  let (permissions, tenant, cache) ←
    limitToTenant server d cache draft.rolePermissions.finalize draft.tenantId
  let token : AccessToken :=
    { primaryId := principal.id, memberOf := draft.memberOf, accessTo := [], tenant,
      name := principal.name, description := draft.description, locale := draft.locale,
      emails := draft.emails ++ groupEmails d draft.memberOf, quota := draft.quota.getD 0,
      objectQuota := draft.objectQuota, permissions }
  let token ← ((principal.id :: draft.memberOf).flatMap d.aclItems).foldlM (takeAclItem cache) token
  .ok (token, cache)

/-! ## Effective permissions -/

/-- The tenant that is known after one more entry. -/
def noteTenant (tenantId : Option UInt32) : PrincipalData → Option UInt32
  | .tenant id => some id
  | _ => tenantId

/-- The tenant of a principal: it has one entry at most, and the last one counts. -/
def lastTenant (data : List PrincipalData) : Option UInt32 := data.foldl noteTenant none

variable (principal : Principal)

/-- The principal or a role that can be reached enables the permission. -/
def Granted (p : Permission) : Prop :=
  principal.Assigns p true ∨ ∃ roleId ∈ principal.roles, Enabled server.table d roleId p

/-- The principal or a role that can be reached disables the permission. -/
def Denied (p : Permission) : Prop :=
  principal.Assigns p false ∨ ∃ roleId ∈ principal.roles, Disabled d roleId p

/-- The tenant, or a role of the tenant, enables the permission, and none disables it. -/
def TenantAllows (p : Permission) : Prop :=
  ∀ tenantId, lastTenant principal.data = some tenantId →
    Enabled server.table d tenantId p ∧ ¬Disabled d tenantId p

/-- **The effective permissions**: what is granted and not denied, and the same for the tenant. -/
def Effective (p : Permission) : Prop :=
  Granted server d principal p ∧ ¬Denied d principal p ∧ TenantAllows server d principal p

/-- What a tenant limits a token to: what it enables, and what an ordinary user may without a
licence. -/
def LimitOf (tenantId : Option UInt32) (p : Permission) : Prop :=
  ∀ id, tenantId = some id →
    match server.edition with
    | .withoutFeatures => True
    | .downgraded => server.table.isUserPermission p
    | .enterprise => Enabled server.table d id p

/-- What the token of a principal is limited to. -/
def Limit (p : Permission) : Prop := LimitOf server d (lastTenant principal.data) p

/-- Everything that is looked up is there. -/
structure Complete : Prop where
  roles : ∀ roleId ∈ principal.roles, AllStored d roleId
  tenant : ∀ tenantId, lastTenant principal.data = some tenantId → AllStored d tenantId ∧
    ∃ tenant, d.query tenantId = some tenant
  collections : ∀ accountId, ∀ item ∈ d.aclItems accountId, item.toCollection ≠ .none

end

/-! ## The loop over the record -/

/-- An entry of a record gives a permission: by itself, or through the role that it names. -/
def ItemGives (rolePred : UInt32 → Permission → Prop) (grant : Bool) (item : PrincipalData)
    (p : Permission) : Prop :=
  match item with
  | .permission permissionId grant' => grant' = grant ∧ permissionId.toNat = p.val
  | .role roleId => rolePred roleId p
  | _ => False

/-- What entries add to a draft. -/
structure Gathers (server : Server) (d : DirectoryStore) (data : List PrincipalData)
    (draft draft' : Draft) : Prop where
  enabled : ∀ p, draft'.rolePermissions.enabled.has p ↔ draft.rolePermissions.enabled.has p ∨
    ∃ item ∈ data, ItemGives (Enabled server.table d) true item p
  surely : ∀ p, (draft.rolePermissions.disabled.has p ∨
    ∃ item ∈ data, ItemGives (SurelyDisabled d) false item p) →
      draft'.rolePermissions.disabled.has p
  disabled : ∀ p, draft'.rolePermissions.disabled.has p →
    draft.rolePermissions.disabled.has p ∨ ∃ item ∈ data, ItemGives (Disabled d) false item p
  tenantId : draft'.tenantId = data.foldl noteTenant draft.tenantId

section

variable {server : Server} {d : DirectoryStore} {draft draft' draft'' : Draft} {cache : RoleCache}
  {data data' : List PrincipalData}

theorem gathers_nil : Gathers server d [] draft draft where
  enabled _ := by simp
  surely _ h := by simpa using h
  disabled _ h := .inl h
  tenantId := rfl

theorem Gathers.append (h : Gathers server d data draft draft')
    (h' : Gathers server d data' draft' draft'') :
    Gathers server d (data ++ data') draft draft'' where
  enabled p := by
    rw [h'.enabled, h.enabled, or_assoc]
    refine or_congr_right ?_
    simp only [mem_append, or_and_right, exists_or]
  surely p hp := by
    refine h'.surely p ?_
    simp only [mem_append, or_and_right, exists_or] at hp
    rcases hp with hp | hp | hp
    · exact .inl (h.surely p (.inl hp))
    · exact .inl (h.surely p (.inr hp))
    · exact .inr hp
  disabled p hp := by
    simp only [mem_append, or_and_right, exists_or]
    rcases h'.disabled p hp with hp | hp
    · rcases h.disabled p hp with hp | hp
      · exact .inl hp
      · exact .inr (.inl hp)
    · exact .inr (.inr hp)
  tenantId := by rw [h'.tenantId, h.tenantId, foldl_append]

theorem gathers_other {item}
    (hsame : draft'.rolePermissions = draft.rolePermissions)
    (hgives : ∀ rolePred grant p, ¬ItemGives rolePred grant item p)
    (htenant : draft'.tenantId = noteTenant draft.tenantId item) :
    Gathers server d [item] draft draft' where
  enabled p := by simp [hsame, hgives]
  surely p h := by simpa [hsame, hgives] using h
  disabled p h := by simpa [hsame, hgives] using h
  tenantId := htenant

/-- **One entry** of the record. -/
theorem takeData_spec (draft : Draft) (hsound : SoundCache server.table d cache)
    (item : PrincipalData)
    (hstored : ∀ roleId, item = .role roleId → AllStored d roleId) :
    ∃ draft' cache', takeData server d (draft, cache) item = .ok (draft', cache') ∧
      SoundCache server.table d cache' ∧ Gathers server d [item] draft draft' := by
  cases item
  case role roleId =>
    obtain ⟨built, hbuilt, hbetween, hsound'⟩ := getRolePermissions_isOk hsound (hstored roleId rfl)
    refine ⟨{ draft with rolePermissions := draft.rolePermissions.union built.permissions },
      built.cache, ?_, hsound', ?_⟩
    · unfold takeData
      dsimp only
      rw [hbuilt]
      rfl
    · refine ⟨fun p => ?_, fun p hp => ?_, fun p hp => ?_, rfl⟩
      · simp [ItemGives, hbetween.enabled]
      · simp only [mem_singleton, exists_eq_left] at hp
        exact RolePermissions.disabled_union.2 (hp.imp_right (hbetween.surely p))
      · simp only [mem_singleton, exists_eq_left]
        exact (RolePermissions.disabled_union.1 hp).imp_right (hbetween.disabled p)
  case permission permissionId grant =>
    refine ⟨_, cache, rfl, hsound, ⟨fun p => ?_, fun p hp => ?_, fun p hp => ?_, rfl⟩⟩
    · simp [ItemGives, RolePermissions.enabled_add]
    · simpa [ItemGives, RolePermissions.disabled_add] using hp
    · simpa [ItemGives, RolePermissions.disabled_add] using hp
  all_goals
    exact ⟨_, cache, rfl, hsound, gathers_other rfl (fun _ _ _ h => h) rfl⟩

/-- **The loop** over the record. -/
theorem foldlM_takeData_spec (draft : Draft) (data : List PrincipalData)
    (hsound : SoundCache server.table d cache)
    (hstored : ∀ roleId, .role roleId ∈ data → AllStored d roleId) :
    ∃ draft' cache', data.foldlM (takeData server d) (draft, cache) = .ok (draft', cache') ∧
      SoundCache server.table d cache' ∧ Gathers server d data draft draft' := by
  induction data generalizing draft cache with
  | nil => exact ⟨draft, cache, rfl, hsound, gathers_nil⟩
  | cons item data ih =>
    obtain ⟨draft', cache', htake, hsound', hgathers⟩ := takeData_spec draft hsound item
      fun roleId h => hstored roleId (h ▸ (.head _) ..)
    obtain ⟨draft'', cache'', hrest, hsound'', hgathers'⟩ := ih draft' hsound'
      fun roleId h => hstored roleId (.tail _ h)
    refine ⟨draft'', cache'', ?_, hsound'', hgathers.append hgathers'⟩
    rw [foldlM_cons, htake]
    exact hrest

/-! ## The token that is built -/

/-- The tenant takes away what is not within its limit. -/
theorem limitToTenant_spec (hsound : SoundCache server.table d cache) (permissions : Permissions)
    (tenantId : Option UInt32)
    (htenant : ∀ id, tenantId = some id → AllStored d id ∧ ∃ tenant, d.query id = some tenant) :
    ∃ permissions' tenant cache',
      limitToTenant server d cache permissions tenantId = .ok (permissions', tenant, cache') ∧
      ∀ p, permissions'.has p ↔ permissions.has p ∧ LimitOf server d tenantId p := by
  unfold limitToTenant LimitOf
  cases hedition : server.edition with
  | withoutFeatures => exact ⟨permissions, none, cache, rfl, fun p => by simp⟩
  | downgraded =>
    cases tenantId with
    | none => exact ⟨permissions, none, cache, rfl, fun p => by simp⟩
    | some id =>
      have hstored : AllStored d ROLE_USER := by
        intro roleId hreach
        rcases hreach.cases_head with rfl | ⟨next, hnext, -⟩
        · exact .inl (.inl rfl)
        · cases not_hasRole_of_builtin (.inl rfl) hnext
      obtain ⟨built, hbuilt, hbetween, -⟩ := getRolePermissions_isOk hsound hstored
      refine ⟨permissions.intersection built.permissions.enabled, none, built.cache, ?_,
        fun p => ?_⟩
      · rw [hbuilt]
        rfl
      · have huser : built.permissions.enabled.has p ↔ server.table.isUserPermission p := by
          rw [hbetween.enabled]
          constructor
          · rintro ⟨other, hreach, henables⟩
            rcases hreach.cases_head with rfl | ⟨next, hnext, -⟩
            · unfold Enables at henables
              rwa [if_pos rfl] at henables
            · cases not_hasRole_of_builtin (.inl rfl) hnext
          · intro h
            refine ⟨ROLE_USER, .refl, ?_⟩
            unfold Enables
            rwa [if_pos rfl]
        rw [Permissions.has_intersection, huser]
        simp
  | enterprise =>
    cases tenantId with
    | none => exact ⟨permissions, none, cache, rfl, fun p => by simp⟩
    | some id =>
      obtain ⟨hstored, tenant, hquery⟩ := htenant id rfl
      obtain ⟨built, hbuilt, hbetween, -⟩ := getRolePermissions_isOk hsound hstored
      refine ⟨permissions.intersection built.permissions.enabled,
        some ⟨id, tenant.quota.getD 0⟩, built.cache, ?_, fun p => ?_⟩
      · dsimp only
        rw [hbuilt]
        change (match d.query id with | none => _ | some tenant => _) = _
        rw [hquery]
      · rw [Permissions.has_intersection, hbetween.enabled]
        simp

theorem foldlM_takeAclItem (cache : RoleCache) (items : List AclItem) (token : AccessToken)
    (hvalid : ∀ item ∈ items, item.toCollection ≠ .none) :
    ∃ token', items.foldlM (takeAclItem cache) token = .ok token' ∧
      token'.permissions = token.permissions := by
  induction items generalizing token with
  | nil => exact ⟨token, rfl, rfl⟩
  | cons item items ih =>
    obtain ⟨hitem, hrest⟩ := forall_mem_cons.1 hvalid
    have hone : ∃ token', takeAclItem cache token item = .ok token' ∧
        token'.permissions = token.permissions := by
      unfold takeAclItem
      split_ifs
      · exact ⟨token, rfl, rfl⟩
      · exact ⟨token, rfl, rfl⟩
      · exact ⟨_, rfl, rfl⟩
    obtain ⟨next, htake, hnext⟩ := hone
    obtain ⟨token', hfold, hsame⟩ := ih next hrest
    refine ⟨token', ?_, hsame.trans hnext⟩
    rw [foldlM_cons, htake]
    exact hfold

variable {principal : Principal}

/-- **The permissions of the token**, from what the loop over the record gathered. -/
theorem buildAccessToken_spec {cache' : RoleCache} (hcomplete : Complete d principal)
    (hgather : gatherData server d cache principal.data = .ok (draft, cache'))
    (hsound : SoundCache server.table d cache')
    (htenant : draft.tenantId = lastTenant principal.data) :
    ∃ token cache'', buildAccessToken server d cache principal = .ok (token, cache'') ∧
      ∀ p, token.permissions.has p ↔
        (draft.rolePermissions.enabled.has p ∧ ¬draft.rolePermissions.disabled.has p) ∧
          Limit server d principal p := by
  obtain ⟨permissions, tenant, cache'', hlimit, hpermissions⟩ :=
    limitToTenant_spec hsound draft.rolePermissions.finalize draft.tenantId
      (fun id hid => hcomplete.tenant id (htenant ▸ hid))
  have hvalid : ∀ item ∈ (principal.id :: draft.memberOf).flatMap d.aclItems,
      item.toCollection ≠ .none := by
    intro item hitem
    obtain ⟨accountId, -, hmem⟩ := mem_flatMap.1 hitem
    exact hcomplete.collections accountId item hmem
  obtain ⟨token, hacl, hsame⟩ := foldlM_takeAclItem cache''
    ((principal.id :: draft.memberOf).flatMap d.aclItems)
    { primaryId := principal.id, memberOf := draft.memberOf, accessTo := [], tenant,
      name := principal.name, description := draft.description, locale := draft.locale,
      emails := draft.emails ++ groupEmails d draft.memberOf, quota := draft.quota.getD 0,
      objectQuota := draft.objectQuota, permissions } hvalid
  refine ⟨token, cache'', ?_, fun p => ?_⟩
  · refine Lib.bind_eq_ok_iff.2 ⟨_, hgather, ?_⟩
    refine Lib.bind_eq_ok_iff.2 ⟨_, hlimit, ?_⟩
    exact Lib.bind_eq_ok_iff.2 ⟨_, hacl, rfl⟩
  · rw [hsame, hpermissions, htenant]
    exact and_congr_left fun _ => Permissions.has_difference

/-! ## Granted and denied, entry by entry -/

theorem mem_roles {roleId : UInt32} : roleId ∈ principal.roles ↔ .role roleId ∈ principal.data := by
  unfold Principal.roles
  rw [mem_filterMap]
  constructor
  · rintro ⟨item, hmem, hitem⟩
    cases item <;> cases hitem
    exact hmem
  · exact fun h => ⟨_, h, rfl⟩

theorem exists_itemGives {rolePred} {grant : Bool} {p : Permission} :
    (∃ item ∈ principal.data, ItemGives rolePred grant item p) ↔
      principal.Assigns p grant ∨ ∃ roleId ∈ principal.roles, rolePred roleId p := by
  constructor
  · rintro ⟨item, hmem, hgives⟩
    cases item
    case role roleId => exact .inr ⟨roleId, mem_roles.2 hmem, hgives⟩
    case permission permissionId grant' =>
      obtain ⟨rfl, hid⟩ := hgives
      exact .inl ⟨permissionId, hid, hmem⟩
    all_goals exact absurd hgives not_false
  · rintro (⟨permissionId, hid, hmem⟩ | ⟨roleId, hmem, hrole⟩)
    · exact ⟨_, hmem, rfl, hid⟩
    · exact ⟨_, mem_roles.1 hmem, hrole⟩

theorem not_draft_enabled (p : Permission) :
    ¬(Draft.new server).rolePermissions.enabled.has p := Permissions.has_new

theorem not_draft_disabled (p : Permission) :
    ¬(Draft.new server).rolePermissions.disabled.has p := Permissions.has_new

/-- **The token is built** from any sound cache: what it enables is granted, and what is missing is
denied. -/
theorem exists_token (hcomplete : Complete d principal) (hsound : SoundCache server.table d cache) :
    ∃ draft token cache' cache'', gatherData server d cache principal.data = .ok (draft, cache') ∧
      buildAccessToken server d cache principal = .ok (token, cache'') ∧
      Gathers server d principal.data (Draft.new server) draft ∧
      ∀ p, token.permissions.has p ↔
        (Granted server d principal p ∧ ¬draft.rolePermissions.disabled.has p) ∧
          Limit server d principal p := by
  obtain ⟨draft, cache', hgather, hsound', hgathers⟩ := foldlM_takeData_spec
    (Draft.new server) principal.data hsound
    (fun roleId hmem => hcomplete.roles roleId (mem_roles.2 hmem))
  obtain ⟨token, cache'', hbuild, htoken⟩ := buildAccessToken_spec hcomplete hgather hsound'
    hgathers.tenantId
  refine ⟨draft, token, cache', cache'', hgather, hbuild, hgathers, fun p => ?_⟩
  rw [htoken, hgathers.enabled, or_iff_right (not_draft_enabled p), exists_itemGives]
  rfl

end

end MailServer.Directory
