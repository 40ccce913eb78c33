import MailServer.Directory.AccessToken

/-!
# Effective permissions

When the permissions of an access token are the effective ones: what the principal and the roles
that can be reached enable, without what any of them disables, and for the member of a tenant
within the same for the tenant.

Principal results: `token_of_reordered`, `exists_undisabled`, `effective_iff`.
-/

namespace MailServer.Directory

open MailServer.Store InsertionMap StackWalk List

variable {server : Server} {d d' : DirectoryStore} {principal principal' : Principal}
  {p : Permission} {cache : RoleCache}

/-! ## Other orders -/

theorem foldl_noteTenant_filter (data : List PrincipalData) (tenantId : Option UInt32) :
    (data.filter fun item => item.roleId.isNone).foldl noteTenant tenantId =
      data.foldl noteTenant tenantId := by
  induction data generalizing tenantId with
  | nil => rfl
  | cons item data ih =>
    cases item <;> exact ih _

theorem lastTenant_congr (h : principal.SameButOrder principal') :
    lastTenant principal'.data = lastTenant principal.data := by
  have hother := h.otherData
  unfold Principal.otherData at hother
  unfold lastTenant
  rw [← foldl_noteTenant_filter principal'.data, hother, foldl_noteTenant_filter]

theorem granted_congr (hd : d.SameButOrder d') (h : principal.SameButOrder principal') :
    Granted server d' principal' p ↔ Granted server d principal p := by
  unfold Granted
  rw [h.assigns, enabled_congr hd]
  simp only [h.roles.mem_iff]

theorem limit_congr (hd : d.SameButOrder d') (h : principal.SameButOrder principal') :
    Limit server d' principal' p ↔ Limit server d principal p := by
  unfold Limit LimitOf
  rw [lastTenant_congr h, enabled_congr hd]

theorem Complete.congr (hcomplete : Complete d principal) (hd : d.SameButOrder d')
    (h : principal.SameButOrder principal') : Complete d' principal' where
  roles roleId hmem := by
    rw [allStored_congr hd]
    exact hcomplete.roles roleId (h.roles.mem_iff.1 hmem)
  tenant tenantId htenant := by
    rw [lastTenant_congr h] at htenant
    obtain ⟨hstored, hquery⟩ := hcomplete.tenant tenantId htenant
    rw [allStored_congr hd]
    refine ⟨hstored, ?_⟩
    have hsame := hd.exists_query tenantId (P := fun _ => True) (Q := fun _ => True)
      fun _ _ _ => Iff.rfl
    simpa using hsame.2 (by simpa using hquery)
  collections := hd.aclItems ▸ hcomplete.collections

/-- A denial that holds in every order: the principal denies the permission, or one of its roles
surely disables it. -/
def SurelyDenied (d : DirectoryStore) (principal : Principal) (p : Permission) : Prop :=
  principal.Assigns p false ∨ ∃ roleId ∈ principal.roles, SurelyDisabled d roleId p

/-- **The token in another order**: what is granted and not disabled by the loop, which disables
what is surely denied and nothing that is not denied. -/
theorem token_of_reordered (server : Server) (hcomplete : Complete d principal)
    (hd : d.SameButOrder d')
    (h : principal.SameButOrder principal') (hsound : SoundCache server.table d' cache) :
    ∃ draft token cache' cache'',
      gatherData server d' cache principal'.data = .ok (draft, cache') ∧
      buildAccessToken server d' cache principal' = .ok (token, cache'') ∧
      (∀ p, token.permissions.has p ↔
        (Granted server d principal p ∧ ¬draft.rolePermissions.disabled.has p) ∧
          Limit server d principal p) ∧
      (∀ p, SurelyDenied d principal p → draft.rolePermissions.disabled.has p) ∧
      ∀ p, draft.rolePermissions.disabled.has p → Denied d principal p := by
  obtain ⟨draft, token, cache', cache'', hgather, hbuild, hgathers, htoken⟩ :=
    exists_token (hcomplete.congr hd h) hsound
  refine ⟨draft, token, cache', cache'', hgather, hbuild, fun p => ?_, fun p hsure => ?_,
    fun p hp => ?_⟩
  · rw [htoken, granted_congr hd h, limit_congr hd h]
  · refine hgathers.surely p (.inr (exists_itemGives.2 ?_))
    rw [h.assigns, surelyDisabled_congr hd]
    simp only [h.roles.mem_iff]
    exact hsure
  · have hitem := (hgathers.disabled p hp).resolve_left (not_draft_disabled p)
    rw [exists_itemGives, h.assigns, disabled_congr hd] at hitem
    simp only [h.roles.mem_iff] at hitem
    exact hitem

/-! ## An order that loses a denial -/

section

variable {draft : Draft} {roles : List UInt32}

theorem Harmless.mono {bound bound' : ℕ} (h : Harmless d p bound cache) (hle : bound' ≤ bound) :
    Harmless d p bound' cache := fun roleId s hfind havoids =>
  ⟨hle.trans (h roleId s hfind havoids).1, (h roleId s hfind havoids).2⟩

/-- Roles from which the administrator role can be reached, the farthest first, disable nothing that
can be avoided. -/
theorem foldlM_takeData_hops (server : Server) (draft : Draft)
    (havoids : ∀ roleId ∈ roles, Avoids d p roleId ROLE_ADMIN)
    (hsorted : roles.Pairwise fun a b => distance d p b ≤ distance d p a)
    (hharmless : ∀ roleId ∈ roles, Harmless d p (distance d p roleId) cache)
    (hsound : SoundCache server.table (d.hopsFirst p) cache)
    (hdraft : ¬draft.rolePermissions.disabled.has p) :
    ∃ draft' cache', (roles.map PrincipalData.role).foldlM (takeData server (d.hopsFirst p))
        (draft, cache) = .ok (draft', cache') ∧
      ¬draft'.rolePermissions.disabled.has p ∧
      SoundCache server.table (d.hopsFirst p) cache' := by
  induction roles generalizing cache draft with
  | nil => exact ⟨draft, cache, rfl, hdraft, hsound⟩
  | cons roleId roles ih =>
    obtain ⟨hfirst, hrest⟩ := pairwise_cons.1 hsorted
    obtain ⟨built, hbuilt, hfree, hharmless'⟩ := getRolePermissions_hops server.table
      (havoids roleId ((.head _) ..)) (hharmless roleId ((.head _) ..))
    have hspec := getRolePermissions_spec hsound roleId
    rw [hbuilt] at hspec
    have hnext : ¬(draft.rolePermissions.union built.permissions).disabled.has p := by
      rw [RolePermissions.disabled_union]
      rintro (hp | hp)
      · exact hdraft hp
      · exact hfree hp
    obtain ⟨draft', cache', hfold, hend, hsound'⟩ := ih
      { draft with rolePermissions := draft.rolePermissions.union built.permissions }
      (fun a ha => havoids a (.tail _ ha)) hrest
      (fun a ha => hharmless'.mono (hfirst a ha)) hspec.2 hnext
    refine ⟨draft', cache', ?_, hend, hsound'⟩
    have htake : takeData server (d.hopsFirst p) (draft, cache) (.role roleId) =
        .ok ({ draft with rolePermissions := draft.rolePermissions.union built.permissions },
          built.cache) := by
      unfold takeData
      dsimp only
      rw [hbuilt]
      rfl
    rw [map_cons, foldlM_cons, htake]
    exact hfold

open Classical in
/-- The roles on the way to the administrator role first, the farthest of them at the head. -/
noncomputable def farthestFirst (d : DirectoryStore) (p : Permission) (roles : List UInt32) :
    List UInt32 :=
  (roles.filter fun roleId => Avoids d p roleId ROLE_ADMIN).insertionSort
      (fun a b => distance d p b ≤ distance d p a) ++
    roles.filter fun roleId => ¬Avoids d p roleId ROLE_ADMIN

open Classical in
theorem farthestFirst_perm (d : DirectoryStore) (p : Permission) (roles : List UInt32) :
    (farthestFirst d p roles).Perm roles := by
  have hfilter := filter_append_perm
    (fun roleId => decide (Avoids d p roleId ROLE_ADMIN)) roles
  simp only [← decide_not] at hfilter
  exact ((perm_insertionSort _ _).append_right _).trans hfilter

/-- **A denial that is not sure** is lost in some order of the roles. -/
theorem exists_undisabled (server : Server) (hcomplete : Complete d principal)
    (hsure : ¬SurelyDenied d principal p) :
    ∃ d' principal' draft cache', d.SameButOrder d' ∧ principal.SameButOrder principal' ∧
      gatherData server d' [] principal'.data = .ok (draft, cache') ∧
      ¬draft.rolePermissions.disabled.has p := by
  classical
  have hassigns : ¬principal.Assigns p false := fun h => hsure (.inl h)
  have hroles : ∀ roleId ∈ principal.roles, ¬SurelyDisabled d roleId p :=
    fun roleId hmem h => hsure (.inr ⟨roleId, hmem, h⟩)
  have hd := sameButOrder_hopsFirst d p
  have hperm := farthestFirst_perm d p principal.roles
  refine ⟨d.hopsFirst p, principal.withRoles (farthestFirst d p principal.roles), ?_⟩
  have h := principal.sameButOrder_withRoles hperm
  have hcomplete' := hcomplete.congr hd h
  -- first the roles that lead to the administrator role
  set near := (principal.roles.filter fun roleId => Avoids d p roleId ROLE_ADMIN).insertionSort
    (fun a b => distance d p b ≤ distance d p a) with hnear
  set far := principal.roles.filter fun roleId => ¬Avoids d p roleId ROLE_ADMIN with hfar
  have hmemNear : ∀ roleId ∈ near, roleId ∈ principal.roles ∧ Avoids d p roleId ROLE_ADMIN := by
    intro roleId hmem
    rw [mem_insertionSort] at hmem
    simpa using mem_filter.1 hmem
  have hsorted : near.Pairwise fun a b => distance d p b ≤ distance d p a := by
    exact pairwise_insertionSort _ _
  have hempty : ∀ roleId ∈ near, Harmless d p (distance d p roleId) [] := by
    intro _ _ roleId s hfind
    cases hfind
  obtain ⟨draft, cache', hfirst, hdraft, hsound⟩ := foldlM_takeData_hops server
    (Draft.new server)
    (fun roleId hmem => (hmemNear roleId hmem).2) hsorted hempty
    (fun roleId s hfind => by cases hfind) (not_draft_disabled p)
  -- then the others, none of which disables the permission, and the other data
  have hmemFar : ∀ roleId ∈ far, roleId ∈ principal.roles ∧ ¬Avoids d p roleId ROLE_ADMIN := by
    intro roleId hmem
    simpa [hfar] using hmem
  have hdata : (principal.withRoles (farthestFirst d p principal.roles)).data =
      near.map PrincipalData.role ++ (far.map PrincipalData.role ++ principal.otherData) := by
    change (near ++ far).map PrincipalData.role ++ principal.otherData = _
    rw [map_append, append_assoc]
  have hrole : ∀ roleId, .role roleId ∈ far.map PrincipalData.role ++ principal.otherData →
      roleId ∈ far := by
    intro roleId hmem
    rcases mem_append.1 hmem with hmem | hmem
    · obtain ⟨other, hother, heq⟩ := mem_map.1 hmem
      cases heq
      exact hother
    · have hnone := (mem_filter.1 hmem).2
      cases hnone
  obtain ⟨draft', cache'', hsecond, -, hgathers⟩ := foldlM_takeData_spec draft
    (far.map PrincipalData.role ++ principal.otherData) hsound (fun roleId hmem => by
      rw [allStored_congr hd]
      exact hcomplete.roles roleId (hmemFar roleId (hrole roleId hmem)).1)
  refine ⟨draft', cache'', hd, h, ?_, fun hp => ?_⟩
  · unfold gatherData
    rw [hdata, foldlM_append, hfirst]
    exact hsecond
  · obtain ⟨item, hmem, hgives⟩ := (hgathers.disabled p hp).resolve_left hdraft
    cases item
    case role roleId =>
      obtain ⟨hin, havoids⟩ := hmemFar roleId (hrole roleId hmem)
      change Disabled (d.hopsFirst p) roleId p at hgives
      rw [disabled_congr hd] at hgives
      exact hroles roleId hin ⟨hgives, havoids⟩
    case permission permissionId grant =>
      obtain ⟨rfl, hid⟩ := hgives
      rcases mem_append.1 hmem with hmem | hmem
      · obtain ⟨_, -, heq⟩ := mem_map.1 hmem
        cases heq
      · exact hassigns ⟨permissionId, hid, mem_of_mem_filter hmem⟩
    all_goals exact hgives

end

/-! ## When the permissions are effective -/

/-- The permissions of the token are the effective ones, in every order of roles and with every
cache. -/
def AlwaysEffective (server : Server) (d : DirectoryStore) (principal : Principal) : Prop :=
  ∀ d' principal' cache, d.SameButOrder d' → principal.SameButOrder principal' →
    ReachableCache server.table d' cache →
    ∃ token cache', buildAccessToken server d' cache principal' = .ok (token, cache') ∧
      ∀ p, token.permissions.has p ↔ Effective server d principal p

theorem DirectoryStore.SameButOrder.refl (d : DirectoryStore) : d.SameButOrder d := by
  refine ⟨rfl, fun id => ?_⟩
  cases d.query id with
  | none => exact .none
  | some principal => exact .some ⟨rfl, rfl, rfl, rfl, .refl _⟩

theorem limit_iff_of_alwaysEffective (hcomplete : Complete d principal)
    (h : AlwaysEffective server d principal) (hgranted : Granted server d principal p)
    (hdenied : ¬Denied d principal p) :
    Limit server d principal p ↔ TenantAllows server d principal p := by
  have hd := DirectoryStore.SameButOrder.refl d
  have hprincipal : principal.SameButOrder principal := ⟨rfl, rfl, rfl, rfl, .refl _⟩
  obtain ⟨token, cache', hbuild, heffective⟩ := h d principal [] hd hprincipal .empty
  obtain ⟨draft, token', _, _, -, hbuild', htoken, -, hdisabled⟩ :=
    token_of_reordered server hcomplete hd hprincipal ReachableCache.empty.sound
  rw [hbuild] at hbuild'
  cases hbuild'
  have hfree : ¬draft.rolePermissions.disabled.has p := fun hp => hdenied (hdisabled p hp)
  have hboth := (htoken p).symm.trans (heffective p)
  constructor
  · exact fun hlimit => (hboth.1 ⟨⟨hgranted, hfree⟩, hlimit⟩).2.2
  · exact fun hallows => (hboth.2 ⟨hgranted, hdenied, hallows⟩).2

theorem surelyDenied_of_alwaysEffective (hcomplete : Complete d principal)
    (h : AlwaysEffective server d principal) (hgranted : Granted server d principal p)
    (hdenied : Denied d principal p) (hlimit : Limit server d principal p) :
    SurelyDenied d principal p := by
  by_contra hsure
  obtain ⟨d', principal', draft, _, hd, hprincipal, hgather, hfree⟩ :=
    exists_undisabled server hcomplete hsure
  obtain ⟨token, cache', hbuild, heffective⟩ := h d' principal' [] hd hprincipal .empty
  obtain ⟨draft', token', _, _, hgather', hbuild', htoken, -⟩ :=
    token_of_reordered server hcomplete hd hprincipal ReachableCache.empty.sound
  rw [hbuild] at hbuild'
  cases hbuild'
  rw [hgather] at hgather'
  cases hgather'
  exact ((heffective p).1 ((htoken p).2 ⟨⟨hgranted, hfree⟩, hlimit⟩)).2.1 hdenied

/-- **Effective permissions**: the token holds them in every order of roles and with every cache,
exactly when the tenant denies nothing that is enabled and every denial of something granted is
sure. -/
theorem effective_iff (server : Server) {d : DirectoryStore} {principal : Principal}
    (hcomplete : Complete d principal) :
    AlwaysEffective server d principal ↔
      ∀ p, (Granted server d principal p → ¬Denied d principal p →
          (Limit server d principal p ↔ TenantAllows server d principal p)) ∧
        (Granted server d principal p → Denied d principal p → Limit server d principal p →
          SurelyDenied d principal p) := by
  constructor
  · exact fun h p => ⟨limit_iff_of_alwaysEffective hcomplete h,
      surelyDenied_of_alwaysEffective hcomplete h⟩
  · intro h d' principal' cache hd hprincipal hcache
    obtain ⟨draft, token, _, cache'', -, hbuild, htoken, hsurely, hdisabled⟩ :=
      token_of_reordered server hcomplete hd hprincipal hcache.sound
    refine ⟨token, cache'', hbuild, fun p => ?_⟩
    obtain ⟨htenant, hsure⟩ := h p
    rw [htoken]
    constructor
    · rintro ⟨⟨hgranted, hfree⟩, hlimit⟩
      have hdenied : ¬Denied d principal p := fun hdenied =>
        hfree (hsurely p (hsure hgranted hdenied hlimit))
      exact ⟨hgranted, hdenied, (htenant hgranted hdenied).1 hlimit⟩
    · rintro ⟨hgranted, hdenied, hallows⟩
      exact ⟨⟨hgranted, fun hp => hdenied (hdisabled p hp)⟩, (htenant hgranted hdenied).2 hallows⟩

def messageQueueList : Permission := ⟨4, by decide⟩

def enterpriseServer : Server := ⟨⟨fun _ => false, fun _ => false⟩, .enterprise, fun _ => 0⟩

/-- A tenant that may see the queue, with a role that may not. -/
def tenantDirectory : DirectoryStore where
  principals :=
    [(2, ⟨2, .tenant, "tenant", [.permission 4 true, .role 3]⟩),
      (3, ⟨3, .role, "no-queue", [.permission 4 false]⟩)]
  aclItems _ := []

/-- A member of the tenant that may see the queue. -/
def tenantMember : Principal := ⟨1, .individual, "member", [.tenant 2, .permission 4 true]⟩

theorem tenantMember_complete : Complete tenantDirectory tenantMember where
  roles roleId hmem := absurd hmem (by simp [tenantMember, Principal.roles, PrincipalData.roleId])
  tenant tenantId htenant := by
    cases htenant
    refine ⟨allStored_of_closed (fun entry hentry roleId hrole => .inr ?_) (.inr rfl), _, rfl⟩
    rcases mem_cons.1 hentry with rfl | hentry
    · rw [mem_singleton.1 hrole]
      rfl
    · rw [mem_singleton.1 hentry] at hrole
      cases hrole
  collections _ _ hitem := nomatch hitem

/-- The member sees the queue, which a role of its tenant denies. -/
theorem tenantMember_not_effective :
    ¬ AlwaysEffective enterpriseServer tenantDirectory tenantMember := by
  intro h
  obtain ⟨token, cache', hbuild, heffective⟩ := h tenantDirectory tenantMember [] (.refl _)
    ⟨rfl, rfl, rfl, rfl, .refl _⟩ .empty
  have hget : (match buildAccessToken enterpriseServer tenantDirectory [] tenantMember with
      | .ok (token, _) => token.permissions.get messageQueueList.val
      | .error _ => false) = true := by
    decide +kernel
  rw [hbuild] at hget
  obtain ⟨-, -, hallows⟩ := (heffective messageQueueList).1 hget
  have hrole : HasRole tenantDirectory 2 3 := ⟨by decide, _, rfl, by decide⟩
  have hdenies : Disables tenantDirectory 3 messageQueueList :=
    ⟨by decide, _, rfl, 4, rfl, mem_singleton_self _⟩
  exact (hallows 2 rfl).2 ⟨3, .single hrole, hdenies⟩

theorem effective_iff_tenantMember :
    (AlwaysEffective enterpriseServer tenantDirectory tenantMember ↔
      ∀ p, (Granted enterpriseServer tenantDirectory tenantMember p →
          ¬Denied tenantDirectory tenantMember p →
          (Limit enterpriseServer tenantDirectory tenantMember p ↔
            TenantAllows enterpriseServer tenantDirectory tenantMember p)) ∧
        (Granted enterpriseServer tenantDirectory tenantMember p →
          Denied tenantDirectory tenantMember p →
          Limit enterpriseServer tenantDirectory tenantMember p →
          SurelyDenied tenantDirectory tenantMember p)) ∧
      ¬ AlwaysEffective enterpriseServer tenantDirectory tenantMember :=
  ⟨effective_iff enterpriseServer tenantMember_complete, tenantMember_not_effective⟩

theorem denied_by_tenant :
    ¬∀ (server : Server) (d : DirectoryStore) (principal : Principal), Complete d principal →
      AlwaysEffective server d principal :=
  fun h => tenantMember_not_effective
    (h enterpriseServer tenantDirectory tenantMember tenantMember_complete)

end MailServer.Directory
