import MailServer.Directory.Roles

/-!
# What the walk over roles gathers

The invariant of the walk in `build_role_permissions`: what was gathered comes from roles that can
be reached, a role that was taken has given its own permissions and has its roles taken or pending,
and as long as a permission was not disabled every pending role is reached through roles that do not
disable it.

Principal results: `getRolePermissions_spec`, `getRolePermissions_isOk`.
-/

namespace MailServer.Directory

open MailServer.Store InsertionMap StackWalk List

variable {cache : RoleCache}

variable {table : PermissionTable} {d : DirectoryStore}

/-! ## One role -/

section

variable {roleId : UInt32} {acc acc' : Gathered}

theorem SoundCache.insert {s} (h : SoundCache table d cache)
    (hbuiltin : ¬IsBuiltin roleId) (hs : Between table d roleId s) :
    SoundCache table d (InsertionMap.insert roleId s cache) := by
  intro other t hfind
  rw [find_insert] at hfind
  split_ifs at hfind with heq
  · cases hfind
    subst heq
    exact ⟨hbuiltin, hs⟩
  · exact h other t hfind

/-- What a role that is taken gives: its own permissions with its roles to come, or everything that
it can give. -/
def Gives (table : PermissionTable) (d : DirectoryStore) (roleId : UInt32) (children : List UInt32)
    (given : RolePermissions) : Prop :=
  (Own table d roleId given ∧ ∀ other, HasRole d roleId other ↔ other ∈ children) ∨
    (Between table d roleId given ∧ children = [])

/-- What a visit did, and what the role gave. -/
structure Took (table : PermissionTable) (d : DirectoryStore) (roleId : UInt32) (acc : Gathered)
    (acc' : Gathered) (children : List UInt32) : Prop where
  sound : SoundCache table d acc'.cache
  gives : ∃ given, acc'.permissions = acc.permissions.union given ∧
    Gives table d roleId children given

theorem gives_builtin {s : Permissions} (hbuiltin : IsBuiltin roleId)
    (h : Own table d roleId ⟨s, .new⟩) : Gives table d roleId [] ⟨s, .new⟩ :=
  .inl ⟨h, fun _ => iff_of_false (not_hasRole_of_builtin hbuiltin) not_mem_nil⟩

/-- **One role**: a role that is left or entered gives its permissions; the administrator role stops
the walk; a role that is not stored makes it fail. -/
theorem visitRole_spec (roleId : UInt32) (hsound : SoundCache table d acc.cache) :
    match visitRole table d roleId acc with
    | .ok (.leave acc') => Took table d roleId acc acc' []
    | .ok (.enter acc' children) => Took table d roleId acc acc' children
    | .ok (.stop acc') => roleId = ROLE_ADMIN ∧
        acc' = { acc with permissions := acc.permissions.union PermissionTable.adminPermissions }
    | .error e => e.2 = acc.cache ∧ ¬IsBuiltin roleId ∧ d.query roleId = none := by
  by_cases huser : roleId = ROLE_USER
  · subst huser
    exact ⟨hsound, _, rfl, gives_builtin (.inl rfl) own_user⟩
  · by_cases hadmin : roleId = ROLE_ADMIN
    · unfold visitRole
      rw [if_neg huser, if_pos hadmin]
      exact ⟨hadmin, rfl⟩
    · by_cases htenant : roleId = ROLE_TENANT_ADMIN
      · subst htenant
        exact ⟨hsound, _, rfl, gives_builtin (.inr (.inr rfl)) own_tenantAdmin⟩
      · have hbuiltin : ¬IsBuiltin roleId := by
          rintro (h | h | h)
          · exact huser h
          · exact hadmin h
          · exact htenant h
        unfold visitRole
        rw [if_neg huser, if_neg hadmin, if_neg htenant]
        cases hfind : find roleId acc.cache with
        | some s => exact ⟨hsound, s, rfl, .inr ⟨(hsound roleId s hfind).2, rfl⟩⟩
        | none =>
          cases hquery : d.query roleId with
          | none => exact ⟨rfl, hbuiltin, rfl⟩
          | some principal =>
            have hown := own_stored table hbuiltin hquery
            have hroles : ∀ other, HasRole d roleId other ↔ other ∈ principal.roles :=
              fun other => hasRole_stored hbuiltin hquery
            dsimp only
            by_cases hleaf : principal.roles = []
            · rw [hleaf] at hroles
              rw [if_pos hleaf]
              have hbetween := hown.between fun other hrole =>
                not_mem_nil ((hroles other).1 hrole)
              exact ⟨hsound.insert hbuiltin hbetween, _, rfl, .inl ⟨hown, hroles⟩⟩
            · rw [if_neg hleaf]
              exact ⟨hsound, _, rfl, .inl ⟨hown, hroles⟩⟩

end

/-! ## The invariant -/

/-- One pair of sets is part of another. -/
def Within (s t : RolePermissions) : Prop :=
  (∀ p, s.enabled.has p → t.enabled.has p) ∧ ∀ p, s.disabled.has p → t.disabled.has p

theorem Within.union_left {s t u} (h : Within s t) : Within s (t.union u) :=
  ⟨fun p hp => RolePermissions.enabled_union.2 (.inl (h.1 p hp)),
    fun p hp => RolePermissions.disabled_union.2 (.inl (h.2 p hp))⟩

theorem within_union_right (s t : RolePermissions) : Within t (s.union t) :=
  ⟨fun _ hp => RolePermissions.enabled_union.2 (.inr hp),
    fun _ hp => RolePermissions.disabled_union.2 (.inr hp)⟩

/-- A role that was met has given what it gives, and its roles were met or are pending. -/
def Taken (table : PermissionTable) (d : DirectoryStore) (pending seen : List UInt32)
    (s : RolePermissions) (roleId : UInt32) : Prop :=
  ∃ given children, Gives table d roleId children given ∧ Within given s ∧
    ∀ other ∈ children, other ∈ seen ∨ other ∈ pending

structure WalkInv (table : PermissionTable) (d : DirectoryStore) (root : UInt32)
    (pending seen : List UInt32) (acc : Gathered) : Prop where
  sound : SoundCache table d acc.cache
  reached : ∀ a ∈ pending, Reaches d root a
  enabled : ∀ p, acc.permissions.enabled.has p → Enabled table d root p
  disabled : ∀ p, acc.permissions.disabled.has p → Disabled d root p
  root_mem : root ∈ seen ∨ root ∈ pending
  avoids : ∀ p, acc.permissions.disabled.has p ∨ ∀ a ∈ pending, Avoids d p root a
  taken : ∀ a ∈ seen, Taken table d pending seen acc.permissions a

variable {root roleId : UInt32} {pending seen children : List UInt32} {acc acc' : Gathered}

theorem walkInv_start (hsound : SoundCache table d cache) :
    WalkInv table d root [root] [] ⟨.empty, cache⟩ where
  sound := hsound
  reached _ ha := mem_singleton.1 ha ▸ .refl
  enabled _ hp := absurd hp Permissions.has_new
  disabled _ hp := absurd hp Permissions.has_new
  root_mem := .inr (mem_singleton_self root)
  avoids _ := .inr fun _ ha => mem_singleton.1 ha ▸ .refl
  taken _ ha := nomatch ha

section

variable {given : RolePermissions} (h : Gives table d roleId children given)
include h

theorem Gives.enabled {p : Permission} (hp : given.enabled.has p) : Enabled table d roleId p := by
  rcases h with ⟨hown, -⟩ | ⟨hbetween, -⟩
  · exact ⟨roleId, .refl, (hown.enabled p).1 hp⟩
  · exact (hbetween.enabled p).1 hp

theorem Gives.disabled {p : Permission} (hp : given.disabled.has p) : Disabled d roleId p := by
  rcases h with ⟨hown, -⟩ | ⟨hbetween, -⟩
  · exact ⟨roleId, .refl, (hown.disabled p).1 hp⟩
  · exact hbetween.disabled p hp

theorem Gives.hasRole {other : UInt32} (hmem : other ∈ children) : HasRole d roleId other := by
  rcases h with ⟨-, hroles⟩ | ⟨-, rfl⟩
  · exact (hroles other).2 hmem
  · cases hmem

end

theorem WalkInv.skip (h : WalkInv table d root (roleId :: pending) seen acc)
    (hseen : roleId ∈ seen) : WalkInv table d root pending seen acc where
  sound := h.sound
  reached a ha := h.reached a (.tail _ ha)
  enabled := h.enabled
  disabled := h.disabled
  root_mem := by
    rcases h.root_mem with hroot | hroot
    · exact .inl hroot
    · rcases mem_cons.1 hroot with rfl | hroot
      · exact .inl hseen
      · exact .inr hroot
  avoids p := (h.avoids p).imp_right fun havoids a ha => havoids a (.tail _ ha)
  taken a ha := by
    obtain ⟨given, children, hgives, hwithin, hmet⟩ := h.taken a ha
    refine ⟨given, children, hgives, hwithin, fun other hother => ?_⟩
    rcases hmet other hother with hmem | hmem
    · exact .inl hmem
    · rcases mem_cons.1 hmem with rfl | hmem
      · exact .inl hseen
      · exact .inr hmem

/-- A role is taken: what it gives is added, and its roles come first among the pending ones. -/
theorem WalkInv.take (h : WalkInv table d root (roleId :: pending) seen acc)
    (htook : Took table d roleId acc acc' children) :
    WalkInv table d root (children ++ pending) (roleId :: seen) acc' := by
  obtain ⟨hsound, given, hunion, hgives⟩ := htook
  have hreach : Reaches d root roleId := h.reached roleId ((.head _) ..)
  have hmoved : ∀ {other}, other ∈ seen ∨ other ∈ roleId :: pending →
      other ∈ roleId :: seen ∨ other ∈ children ++ pending := by
    rintro other (hmem | hmem)
    · exact .inl (.tail _ hmem)
    · rcases mem_cons.1 hmem with rfl | hmem
      · exact .inl ((.head _) ..)
      · exact .inr (mem_append_right _ hmem)
  refine ⟨hsound, fun a ha => ?_, fun p hp => ?_, fun p hp => ?_, hmoved h.root_mem, fun p => ?_,
    fun a ha => ?_⟩
  · rcases mem_append.1 ha with hchild | hmem
    · exact hreach.tail (hgives.hasRole hchild)
    · exact h.reached a (.tail _ hmem)
  · rw [hunion, RolePermissions.enabled_union] at hp
    rcases hp with hp | hp
    · exact h.enabled p hp
    · obtain ⟨other, hother, henables⟩ := hgives.enabled hp
      exact ⟨other, hreach.trans hother, henables⟩
  · rw [hunion, RolePermissions.disabled_union] at hp
    rcases hp with hp | hp
    · exact h.disabled p hp
    · obtain ⟨other, hother, hdisables⟩ := hgives.disabled hp
      exact ⟨other, hreach.trans hother, hdisables⟩
  · -- a role that disables the permission puts it into the set; the others keep the way free
    rw [hunion, RolePermissions.disabled_union]
    rcases h.avoids p with hp | havoids
    · exact .inl (.inl hp)
    · by_cases hp : given.disabled.has p
      · exact .inl (.inr hp)
      · refine .inr fun a ha => ?_
        rcases mem_append.1 ha with hchild | hmem
        · refine (havoids roleId ((.head _) ..)).tail ⟨hgives.hasRole hchild, ?_⟩
          rcases hgives with ⟨hown, -⟩ | ⟨-, rfl⟩
          · exact fun hdisables => hp ((hown.disabled p).2 hdisables)
          · cases hchild
        · exact havoids a (.tail _ hmem)
  · rw [hunion]
    rcases mem_cons.1 ha with rfl | hmem
    · exact ⟨given, children, hgives, within_union_right _ _, fun other hother =>
        .inr (mem_append_left _ hother)⟩
    · obtain ⟨given', children', hgives', hwithin, hmet⟩ := h.taken a hmem
      exact ⟨given', children', hgives', hwithin.union_left, fun other hother =>
        hmoved (hmet other hother)⟩

/-- **One round** keeps the invariant. -/
theorem WalkInv.moves {pending' seen' : List UInt32}
    (hmoves : Moves (visitRole table d) pending seen acc pending' seen' acc')
    (h : WalkInv table d root pending seen acc) :
    WalkInv table d root pending' seen' acc' := by
  cases hmoves with
  | skip hseen => exact h.skip hseen
  | @leave a _ _ _ _ _ hvisit =>
    have hspec := visitRole_spec a h.sound
    rw [hvisit] at hspec
    exact h.take hspec
  | @enter a _ _ _ _ _ _ hvisit =>
    have hspec := visitRole_spec a h.sound
    rw [hvisit] at hspec
    exact h.take hspec
  | pop => exact h

/-! ## The end of the walk -/

/-- With nothing pending, every role that is reached from a role that was met has given what it
enables. -/
theorem WalkInv.enabled_of_reaches (h : WalkInv table d root [] seen acc) {other : UInt32}
    {p : Permission} (hreach : Reaches d roleId other) (henables : Enables table d other p)
    (hmem : roleId ∈ seen) : acc.permissions.enabled.has p := by
  induction hreach using Relation.ReflTransGen.head_induction_on with
  | refl =>
    obtain ⟨given, children, hgives, hwithin, -⟩ := h.taken other hmem
    rcases hgives with ⟨hown, -⟩ | ⟨hbetween, -⟩
    · exact hwithin.1 p ((hown.enabled p).2 henables)
    · exact hwithin.1 p ((hbetween.enabled p).2 ⟨other, .refl, henables⟩)
  | @head x y hxy hyo ih =>
    obtain ⟨given, children, hgives, hwithin, hmet⟩ := h.taken x hmem
    rcases hgives with ⟨-, hroles⟩ | ⟨hbetween, -⟩
    · exact ih ((hmet y ((hroles y).1 hxy)).resolve_right not_mem_nil)
    · exact hwithin.1 p ((hbetween.enabled p).2 ⟨other, .head hxy hyo, henables⟩)

theorem WalkInv.disabled_of_reaches (h : WalkInv table d root [] seen acc) {other : UInt32}
    {p : Permission} (hreach : Reaches d roleId other) (hdisables : Disables d other p)
    (hfree : Avoids d p root roleId) (hadmin : ¬Avoids d p root ROLE_ADMIN)
    (hmem : roleId ∈ seen) : acc.permissions.disabled.has p := by
  -- what a cached role surely disables includes the permission
  have hcached : ∀ {x given}, Between table d x given → Within given acc.permissions →
      Reaches d x other → Avoids d p root x → acc.permissions.disabled.has p := by
    intro x given hbetween hwithin hx hfree
    exact hwithin.2 p (hbetween.surely p ⟨⟨other, hx, hdisables⟩, fun h => hadmin (hfree.trans h)⟩)
  induction hreach using Relation.ReflTransGen.head_induction_on with
  | refl =>
    obtain ⟨given, children, hgives, hwithin, -⟩ := h.taken other hmem
    rcases hgives with ⟨hown, -⟩ | ⟨hbetween, -⟩
    · exact hwithin.2 p ((hown.disabled p).2 hdisables)
    · exact hcached hbetween hwithin .refl hfree
  | @head x y hxy hyo ih =>
    obtain ⟨given, children, hgives, hwithin, hmet⟩ := h.taken x hmem
    rcases hgives with ⟨hown, hroles⟩ | ⟨hbetween, -⟩
    · by_cases hx : Disables d x p
      · exact hwithin.2 p ((hown.disabled p).2 hx)
      · exact ih (hfree.tail ⟨hxy, hx⟩)
          ((hmet y ((hroles y).1 hxy)).resolve_right not_mem_nil)
    · exact hcached hbetween hwithin (.head hxy hyo) hfree

theorem WalkInv.done (h : WalkInv table d root [] seen acc) :
    Between table d root acc.permissions := by
  have hroot : root ∈ seen := h.root_mem.resolve_right not_mem_nil
  refine ⟨fun p => ⟨h.enabled p, ?_⟩, fun p hsure => ?_, h.disabled⟩
  · rintro ⟨other, hreach, henables⟩
    exact h.enabled_of_reaches hreach henables hroot
  · obtain ⟨⟨other, hreach, hdisables⟩, hadmin⟩ := hsure
    exact h.disabled_of_reaches hreach hdisables .refl hadmin hroot

theorem WalkInv.stopped (h : WalkInv table d root (ROLE_ADMIN :: pending) seen acc) :
    Between table d root (acc.permissions.union PermissionTable.adminPermissions) := by
  have hreach : Reaches d root ROLE_ADMIN := h.reached _ ((.head _) ..)
  refine ⟨fun p => ?_, fun p hsure => ?_, fun p hp => ?_⟩
  · exact iff_of_true (RolePermissions.enabled_union.2 (.inr Permissions.has_all))
      ⟨ROLE_ADMIN, hreach, enables_admin⟩
  · rcases h.avoids p with hp | havoids
    · exact RolePermissions.disabled_union.2 (.inl hp)
    · cases hsure.2 (havoids _ ((.head _) ..))
  · rcases RolePermissions.disabled_union.1 hp with hp | hp
    · exact h.disabled p hp
    · cases Permissions.has_new hp

/-- **The walk**: what it gathers lies between what is surely disabled and what can be; it fails for
a role that is not stored. -/
theorem buildRolePermissions_spec (hsound : SoundCache table d cache) (root : UInt32) :
    match buildRolePermissions table d cache root with
    | .ok built => Between table d root built.permissions ∧ SoundCache table d built.cache
    | .error e => SoundCache table d e.2 ∧
        ∃ roleId, Reaches d root roleId ∧ ¬IsBuiltin roleId ∧ d.query roleId = none := by
  unfold buildRolePermissions
  have hends := walk_rule d.roleCounts (fun _ _ _ _ => enters_stored table d)
    (w := ⟨[root], [], [], ⟨.empty, cache⟩⟩) (I := WalkInv table d root)
    (fun hmoves h => h.moves hmoves) (walkInv_start hsound)
  generalize walk (visitRole table d) d.roleCounts _ ⟨[root], [], [], ⟨.empty, cache⟩⟩ = result
    at hends ⊢
  cases hends with
  | done h => exact ⟨h.done, h.sound⟩
  | @stopped a pending seen acc w h hnew hseen hvisit =>
    have hspec := visitRole_spec a h.sound
    rw [hvisit] at hspec
    obtain ⟨rfl, hacc⟩ := hspec
    change Between table d root w.acc.permissions ∧ SoundCache table d w.acc.cache
    rw [hacc]
    exact ⟨h.stopped, h.sound⟩
  | @failed a pending seen acc e h hnew hvisit =>
    have hspec := visitRole_spec a h.sound
    rw [hvisit] at hspec
    obtain ⟨hcache, hbuiltin, hquery⟩ := hspec
    refine ⟨?_, a, h.reached a ((.head _) ..), hbuiltin, hquery⟩
    rw [hcache]
    exact h.sound

/-- **Permissions of a role**, cached, built in or walked. -/
theorem getRolePermissions_spec (hsound : SoundCache table d cache) (root : UInt32) :
    match getRolePermissions table d cache root with
    | .ok built => Between table d root built.permissions ∧ SoundCache table d built.cache
    | .error e => SoundCache table d e.2 ∧
        ∃ roleId, Reaches d root roleId ∧ ¬IsBuiltin roleId ∧ d.query roleId = none := by
  have hnone : ∀ {roleId}, IsBuiltin roleId → ∀ other, ¬HasRole d roleId other :=
    fun hbuiltin _ => not_hasRole_of_builtin hbuiltin
  unfold getRolePermissions
  by_cases huser : root = ROLE_USER
  · subst huser
    exact ⟨own_user.between (hnone (.inl rfl)), hsound⟩
  · by_cases hadmin : root = ROLE_ADMIN
    · subst hadmin
      exact ⟨own_admin.between (hnone (.inr (.inl rfl))), hsound⟩
    · by_cases htenant : root = ROLE_TENANT_ADMIN
      · subst htenant
        exact ⟨own_tenantAdmin.between (hnone (.inr (.inr rfl))), hsound⟩
      · have hbuiltin : ¬IsBuiltin root := by
          rintro (h | h | h)
          · exact huser h
          · exact hadmin h
          · exact htenant h
        rw [if_neg huser, if_neg hadmin, if_neg htenant]
        cases hfind : find root cache with
        | some s => exact ⟨(hsound root s hfind).2, hsound⟩
        | none =>
          have hbuild := buildRolePermissions_spec hsound root
          cases hresult : buildRolePermissions table d cache root with
          | error e =>
            rw [hresult] at hbuild
            exact hbuild
          | ok built =>
            rw [hresult] at hbuild
            exact ⟨hbuild.1, hbuild.2.insert hbuiltin hbuild.1⟩

/-- Every role that can be reached is built in or stored. -/
def AllStored (d : DirectoryStore) (root : UInt32) : Prop :=
  ∀ roleId, Reaches d root roleId → IsBuiltin roleId ∨ ∃ principal, d.query roleId = some principal

/-- In a directory whose principals name stored roles only, every role that can be reached is
stored. -/
theorem allStored_of_closed
    (hclosed : ∀ entry ∈ d.principals, ∀ roleId ∈ entry.2.roles,
      IsBuiltin roleId ∨ (d.query roleId).isSome)
    (hroot : IsBuiltin root ∨ (d.query root).isSome) : AllStored d root := by
  intro roleId hreach
  rw [← Option.isSome_iff_exists]
  induction hreach with
  | refl => exact hroot
  | tail _ hrole _ =>
    obtain ⟨-, principal, hquery, hmem⟩ := hrole
    exact hclosed _ (mem_of_find hquery) _ hmem

/-- **With all roles stored**, the permissions are found. -/
theorem getRolePermissions_isOk (hsound : SoundCache table d cache) (hstored : AllStored d root) :
    ∃ built, getRolePermissions table d cache root = .ok built ∧
      Between table d root built.permissions ∧ SoundCache table d built.cache := by
  have hspec := getRolePermissions_spec hsound root
  cases hresult : getRolePermissions table d cache root with
  | error e =>
    rw [hresult] at hspec
    obtain ⟨-, roleId, hreach, hbuiltin, hquery⟩ := hspec
    rcases hstored roleId hreach with h | ⟨principal, h⟩
    · cases hbuiltin h
    · rw [hquery] at h
      cases h
  | ok built =>
    rw [hresult] at hspec
    exact ⟨built, rfl, hspec⟩

/-! ## Caches -/

/-- The caches of role permissions that come about: roles are asked for, and entries are dropped. -/
inductive ReachableCache (table : PermissionTable) (d : DirectoryStore) : RoleCache → Prop
  | empty : ReachableCache table d []
  | found {cache : RoleCache} {roleId : UInt32} {built : Gathered} : ReachableCache table d cache →
      getRolePermissions table d cache roleId = .ok built → ReachableCache table d built.cache
  | failed {cache : RoleCache} {roleId : UInt32} {e : BuildError × RoleCache} :
      ReachableCache table d cache → getRolePermissions table d cache roleId = .error e →
      ReachableCache table d e.2
  | dropped {cache : RoleCache} (roleId : UInt32) : ReachableCache table d cache →
      ReachableCache table d (InsertionMap.remove roleId cache)

/-- **Caches that come about are sound.** -/
theorem ReachableCache.sound (h : ReachableCache table d cache) :
    SoundCache table d cache := by
  induction h with
  | empty =>
    intro roleId s hfind
    cases hfind
  | @found cache roleId built _ hget ih =>
    have hspec := getRolePermissions_spec ih roleId
    rw [hget] at hspec
    exact hspec.2
  | @failed cache roleId e _ hget ih =>
    have hspec := getRolePermissions_spec ih roleId
    rw [hget] at hspec
    exact hspec.1
  | dropped roleId _ ih =>
    intro other s hfind
    rw [find_remove] at hfind
    split_ifs at hfind
    exact ih other s hfind

end MailServer.Directory
