import NocoMiddleware.Http.Requests
import NocoMiddleware.Store.TableWrites

/-!
# Who may change the policy

The rows of `roles`, `user_roles` and `table_permissions` are the policy that permission checks
read.  `Entitled` are the requests that the guards are meant to let through.  A served request
leaves the policy alone unless it is entitled and its route writes to these tables, and no other
request is answered with a result.
-/

namespace NocoMiddleware
namespace Http

open NocoMiddleware.Js NocoMiddleware.Filter NocoMiddleware.Tables NocoMiddleware.Store
open NocoMiddleware.Permissions NocoMiddleware.Users NocoMiddleware.Auth NocoMiddleware.Data
open NocoMiddleware.Foundation NocoMiddleware.Runs

/-! ## Changes outside the policy -/

/-- The id is that of a table of the policy. -/
def IsPolicyTable (tablePrefix : JsString) (reported : List TableMeta) (id : JsString) : Prop :=
  ∃ table : SystemTable, table ≠ .users ∧ ResolvesTo tablePrefix reported table.name id

/-- The id is that of the users table. -/
def IsUsersTable (tablePrefix : JsString) (reported : List TableMeta) (id : JsString) : Prop :=
  ResolvesTo tablePrefix reported SystemTable.users.name id

/-- Only tables with one of the ids have other rows than before, and the cache is coherent. -/
structure ChangesOnly (tablePrefix : JsString) (ids : JsString → Prop) (world world' : World) :
    Prop where
  tables : world'.tables = world.tables
  elsewhere : ∀ tableId, ¬ ids tableId → world'.rows tableId = world.rows tableId
  invariant : CacheInvariant tablePrefix world'

section

variable {tablePrefix : JsString} {ids : JsString → Prop} {world world' world'' : World}

/-- The users table is none of the policy. -/
theorem not_isPolicyTable_of_users {reported : List TableMeta} {id : JsString}
    (hdistinct : DistinctTables tablePrefix reported)
    (h : IsUsersTable tablePrefix reported id) : ¬ IsPolicyTable tablePrefix reported id := by
  rintro ⟨table, hne, found, hfound, rfl⟩
  obtain ⟨users, husers, hid⟩ := h
  exact hdistinct table .users hne found users hfound husers hid.symm

/-- The grants depend on the policy only. -/
theorem grants_of_policyRows (htables : world'.tables = world.tables)
    (hrows : ∀ table : SystemTable, table ≠ .users →
      systemRows tablePrefix world' table = systemRows tablePrefix world table)
    (userId : JsNumber) (table : JsString) (action : CrudAction) :
    Grants tablePrefix world' userId table action ↔
      Grants tablePrefix world userId table action := by
  apply grants_congr htables
  · intro roleId
    rw [HoldsRole, HoldsRole, hrows .userRoles (by decide), hrows .roles (by decide)]
  · exact hrows .tablePermissions (by decide)

/-- A table has the same rows if no table with its id is written to. -/
theorem systemRows_of_elsewhere {table : SystemTable} (htables : world'.tables = world.tables)
    (helsewhere : ∀ tableId, ¬ ids tableId → world'.rows tableId = world.rows tableId)
    (htable : ∀ id, ResolvesTo tablePrefix world.tables table.name id → ¬ ids id) :
    systemRows tablePrefix world' table = systemRows tablePrefix world table := by
  unfold systemRows
  rw [htables]
  cases hfound : resolve tablePrefix world.tables table.name with
  | none => rfl
  | some found =>
      show (world'.rows found.id).rows = (world.rows found.id).rows
      rw [helsewhere found.id (htable found.id ⟨found, hfound, rfl⟩)]

/-- The policy has the same rows if no table of it is written to. -/
theorem policyRows_of_elsewhere (htables : world'.tables = world.tables)
    (helsewhere : ∀ tableId, ¬ ids tableId → world'.rows tableId = world.rows tableId)
    (hids : ∀ id, ids id → ¬ IsPolicyTable tablePrefix world.tables id) (table : SystemTable)
    (hne : table ≠ .users) :
    systemRows tablePrefix world' table = systemRows tablePrefix world table :=
  systemRows_of_elsewhere htables helsewhere fun id hresolves hid =>
    hids id hid ⟨table, hne, hresolves⟩

namespace ChangesOnly

theorem refl (h : CacheInvariant tablePrefix world) : ChangesOnly tablePrefix ids world world :=
  ⟨rfl, fun _ _ => rfl, h⟩

theorem trans (h : ChangesOnly tablePrefix ids world world')
    (h' : ChangesOnly tablePrefix ids world' world'') :
    ChangesOnly tablePrefix ids world world'' where
  tables := h'.tables.trans h.tables
  elsewhere tableId hother := (h'.elsewhere tableId hother).trans (h.elsewhere tableId hother)
  invariant := h'.invariant

theorem mono {more : JsString → Prop} (h : ChangesOnly tablePrefix ids world world')
    (hids : ∀ id, ids id → more id) : ChangesOnly tablePrefix more world world' where
  tables := h.tables
  elsewhere tableId hother := h.elsewhere tableId fun hid => hother (hids tableId hid)
  invariant := h.invariant

theorem of_onlyRead (h : OnlyRead tablePrefix world world') :
    ChangesOnly tablePrefix ids world world' :=
  ⟨h.tables, fun _ _ => by rw [h.rows], h.invariant⟩

theorem of_unchanged (hinvariant : CacheInvariant tablePrefix world) (h : Unchanged world world') :
    ChangesOnly tablePrefix ids world world' :=
  .of_onlyRead (.of_unchanged hinvariant h)

/-- A change of a row of the users table. -/
theorem of_changed_users {change : Change} (hinvariant : CacheInvariant tablePrefix world)
    (h : Changed tablePrefix .users change world world') :
    ChangesOnly tablePrefix (IsUsersTable tablePrefix world.tables) world world' where
  tables := h.tables
  elsewhere tableId hother := by
    obtain ⟨found, earlier, content, hfound, hearlier, -, rfl⟩ := h
    have hne : tableId ≠ found.id := by
      rintro rfl
      exact hother ⟨found, hfound, rfl⟩
    rw [World.rows_setTable_of_ne _ _ hne, hearlier.rows]
  invariant :=
    cacheInvariant_changed h hinvariant fun userId _ =>
      grants_of_policyRows h.tables (fun _ hne => h.systemRows_of_ne hinvariant.2 hne) userId

/-- The policy has the same rows if it may not be changed. -/
theorem policyRows_eq (h : ChangesOnly tablePrefix ids world world')
    (hids : ∀ id, ids id → ¬ IsPolicyTable tablePrefix world.tables id) (table : SystemTable)
    (hne : table ≠ .users) :
    systemRows tablePrefix world' table = systemRows tablePrefix world table :=
  policyRows_of_elsewhere h.tables h.elsewhere hids table hne

theorem grants_iff (h : ChangesOnly tablePrefix ids world world')
    (hids : ∀ id, ids id → ¬ IsPolicyTable tablePrefix world.tables id) (userId : JsNumber)
    (table : JsString) (action : CrudAction) :
    Grants tablePrefix world' userId table action ↔
      Grants tablePrefix world userId table action :=
  grants_of_policyRows h.tables (h.policyRows_eq hids) userId table action

theorem holds_iff (h : ChangesOnly tablePrefix ids world world')
    (hids : ∀ id, ids id → ¬ IsPolicyTable tablePrefix world.tables id) (user : RequestUser)
    (permission : RequiredPermission) :
    Holds tablePrefix world' user permission ↔ Holds tablePrefix world user permission := by
  rw [Holds, Holds, h.grants_iff hids]

theorem admits_iff (h : ChangesOnly tablePrefix ids world world')
    (hids : ∀ id, ids id → ¬ IsPolicyTable tablePrefix world.tables id)
    (required : List RequiredPermission) (user : Option RequestUser) :
    Admits tablePrefix world' required user ↔ Admits tablePrefix world required user := by
  simp only [Admits, h.holds_iff hids]

/-- A program that writes to tables outside the policy keeps the cache coherent. -/
theorem of_writesOnly (hinvariant : CacheInvariant tablePrefix world)
    (hids : ∀ id, ids id → ¬ IsPolicyTable tablePrefix world.tables id)
    (h : WritesOnly ids world world') : ChangesOnly tablePrefix ids world world' where
  tables := h.tables
  elsewhere := h.elsewhere
  invariant := by
    constructor
    · apply hinvariant.1.of_live
      intro userId value hlive
      rw [h.cache] at hlive
      refine ⟨PermissionsCache.live_of_le h.clock hlive, ?_⟩
      exact grants_of_policyRows h.tables
        (policyRows_of_elsewhere h.tables h.elsewhere hids) userId
    · rw [h.tables]
      exact hinvariant.2

end ChangesOnly

end

/-! ## Entitled requests -/

/-- The token is that of a user whom `validate` accepts. -/
def Authenticates (config : Config) (faults : Bool) (world : World) (token : Option TokenPayload)
    (user : AuthenticatedUser) : Prop :=
  ∃ payload world', token = some payload ∧ Exec (nocodb faults).contract
    (validate config.tablePrefix config.provider payload) world (.ok user) world'

namespace AdminRoute

/-- The route writes to the policy. -/
def changesPolicy : AdminRoute → Bool
  | getAllRoles _ => false
  | getRolePermissions _ _ => false
  | getUserRoles _ _ => false
  | _ => true

end AdminRoute

namespace Route

/-- The route writes to the policy. -/
def changesPolicy : Route → Bool
  | .admin route => route.changesPolicy
  | .createUser _ => true
  | .bootstrapAdmin _ _ => true
  | _ => false

/-- What the guard of the controller asks of a user. -/
def Admits (config : Config) (world : World) (user : AuthenticatedUser) : Route → Prop
  | .admin route =>
      Http.Admits config.tablePrefix world (route.required.getD []) (some (requestUser user))
  | .bootstrapAdmin _ _ => True
  | _ => js "admin" ∈ user.roles

/-- The request may be made: its user is admitted, or it has the token for administrators. -/
def Entitled (config : Config) (faults : Bool) (world : World) (token : Option TokenPayload) :
    Route → Prop
  | .bootstrapAdmin _ bootstrapToken =>
      assertBootstrapAllowed config.bootstrapToken bootstrapToken = .ok ()
  | route => ∃ user, Authenticates config faults world token user ∧ route.Admits config world user

end Route

section

variable {config : Config} {order : SortOrder} {faults : Bool} {world world' : World}

/-- `validate` changes rows of the users table only. -/
theorem wp_validate {payload : TokenPayload} (hinvariant : CacheInvariant config.tablePrefix world) :
    wp (nocodb faults).contract (validate config.tablePrefix config.provider payload)
      (fun _ world' => ChangesOnly config.tablePrefix
        (IsUsersTable config.tablePrefix world.tables) world world') world := by
  rw [System.wp_iff_exec]
  intro result world' hexec
  rcases exec_validate hexec with ⟨_, -, rfl⟩ | ⟨claims, outcome, -, hresolve, -⟩
  · exact .refl hinvariant
  · rcases userUpserted_of_resolves (wp_sound wp_resolveUser hresolve) with
      hunchanged | ⟨_, _, hupserted⟩
    · exact .of_unchanged hinvariant hunchanged
    · cases hupserted with
      | refreshed _ _ hchanged => exact .of_changed_users hinvariant hchanged
      | linked _ _ hchanged => exact .of_changed_users hinvariant hchanged
      | created _ _ _ hchanged => exact .of_changed_users hinvariant hchanged

/-- `JwtAuthGuard` lets users through that the strategy accepts, and no one else. -/
theorem wp_authenticate {isPublic : Bool} {token : Option TokenPayload}
    (hinvariant : CacheInvariant config.tablePrefix world) :
    wp (nocodb faults).contract (authenticate config isPublic token)
      (fun result world' =>
        ChangesOnly config.tablePrefix (IsUsersTable config.tablePrefix world.tables) world world' ∧
          ∀ user, result = .ok user →
            if isPublic then user = none
            else ∃ caller, user = some caller ∧ Authenticates config faults world token caller)
      world := by
  unfold authenticate
  by_cases hpublic : isPublic = true
  · rw [if_pos hpublic]
    refine ⟨.refl hinvariant, ?_⟩
    rintro user ⟨⟩
    rw [if_pos hpublic]
  · rw [if_neg hpublic]
    cases token with
    | none =>
        refine ⟨.refl hinvariant, ?_⟩
        intro user huser
        contradiction
    | some payload =>
        show wp _ (validate config.tablePrefix config.provider payload >>= _) _ world
        rw [wp_bind, System.wp_iff_exec]
        intro result world' hexec
        have hchanges := wp_sound (wp_validate hinvariant) hexec
        cases result with
        | error exception =>
            refine ⟨hchanges, ?_⟩
            intro user huser
            contradiction
        | ok caller =>
            refine ⟨hchanges, ?_⟩
            rintro user ⟨⟩
            rw [if_neg hpublic]
            exact ⟨caller, rfl, payload, world', rfl, hexec⟩

/-- The guard of a controller only reads, and lets those through that it is meant to. -/
theorem wp_authorize {route : Route} {user : AuthenticatedUser}
    (hinvariant : CacheInvariant config.tablePrefix world) :
    wp (nocodb faults).contract (route.authorize config (some user))
      (fun result world' => OnlyRead config.tablePrefix world world' ∧
        (result = .ok () → route.Admits config world user)) world := by
  have hroles : ∀ route : Route, route.roles = some [js "admin"] →
      wp (nocodb faults).contract
        (require (rolesGuardCanActivate route.roles (some user.roles)))
        (fun result world' => OnlyRead config.tablePrefix world world' ∧
          (result = .ok () → js "admin" ∈ user.roles)) world := by
    intro route hrequired
    rw [hrequired, require]
    split
    · next hadmitted =>
        refine ⟨.refl hinvariant, ?_⟩
        intro _
        exact (rolesGuardCanActivate_singleton _ _).mp hadmitted
    · exact ⟨.refl hinvariant, nofun⟩
  cases route with
  | admin route =>
      show wp _ (canActivate config.tablePrefix route.required none
        (some (requestUser user)) >>= require) _ world
      rw [wp_bind]
      apply wp_mono (wp_canActivate hinvariant)
      rintro (exception | admitted) world' ⟨hread, hresult⟩
      · exact ⟨hread, nofun⟩
      · obtain ⟨rfl, hadmits⟩ := hresult
        refine ⟨hread, ?_⟩
        intro _
        rw [getAllAndOverride, Option.or_none] at hadmits
        exact hadmits
  | createUser dto => exact hroles (.createUser dto) rfl
  | updateStatus id isActive => exact hroles (.updateStatus id isActive) rfl
  | listTables => exact hroles .listTables rfl
  | bootstrapAdmin dto bootstrapToken => exact ⟨.refl hinvariant, fun _ => trivial⟩

/-! ## The methods of the routes -/

theorem uses_listPage {tablePrefix : JsString} {ids : JsString → Prop} {table : SystemTable}
    {filter : Except Exception (Option JsString)} {sort : JsString}
    {pageOptionsDto : Option PageOptionsDto} :
    (listPage tablePrefix table filter sort pageOptionsDto).Uses (WritesTo ids) := by
  unfold listPage
  apply uses_getTableByName.lift.bind
  intro found
  cases found with
  | none => trivial
  | some found =>
      apply (Program.uses_ofExcept _).bind
      intro filter
      apply uses_listWith.bind
      intro response
      trivial

theorem uses_loadRoles {tablePrefix : JsString} {ids : JsString → Prop}
    {roleIds : List JsNumber} :
    (Users.loadRoles tablePrefix roleIds).Uses fun op => WritesTo ids (.inl op) := by
  unfold Users.loadRoles
  split
  · trivial
  · apply uses_getTableByName.bind
    intro rolesTable
    cases rolesTable with
    | none => trivial
    | some rolesTable =>
        apply (Program.uses_ofExcept _).bind
        intro filter
        apply uses_listAll.bind
        intro roles
        trivial

theorem uses_getUserRoles {tablePrefix : JsString} {ids : JsString → Prop} {userId : JsNumber}
    {pageOptionsDto : Option PageOptionsDto} :
    (Users.getUserRoles tablePrefix userId pageOptionsDto).Uses (WritesTo ids) := by
  unfold Users.getUserRoles
  apply uses_getTableByName.lift.bind
  intro userRolesTable
  cases userRolesTable with
  | none => trivial
  | some userRolesTable =>
      apply (Program.uses_ofExcept _).bind
      intro filter
      apply uses_listWith.bind
      intro response
      apply uses_loadRoles.lift.bind
      intro data
      trivial

/-- The method of a route that does not write to the policy. -/
theorem wp_handle_quiet {route : Route} (hquiet : route.changesPolicy = false)
    (hinvariant : CacheInvariant config.tablePrefix world) :
    wp (pagedNocodb order faults).contract (route.handle config)
      (fun _ world' => ChangesOnly config.tablePrefix
        (IsUsersTable config.tablePrefix world.tables) world world') world := by
  have hreads : ∀ {α : Type} {program : Paging α},
      program.Uses (WritesTo fun _ => False) →
        wp (pagedNocodb order faults).contract program
          (fun _ world' => ChangesOnly config.tablePrefix
            (IsUsersTable config.tablePrefix world.tables) world world') world := by
    intro α program huses
    apply wp_mono (wp_writesOnly huses)
    intro _ world' hwrites
    exact .of_unchanged hinvariant hwrites.unchanged
  cases route with
  | admin route =>
      cases route with
      | getAllRoles pageOptionsDto => exact hreads uses_listPage
      | getRolePermissions roleId pageOptionsDto => exact hreads uses_listPage
      | getUserRoles userId pageOptionsDto => exact hreads uses_getUserRoles
      | _ => contradiction
  | listTables =>
      apply hreads
      apply (Program.uses_call trivial).lift.bind
      intro tables
      trivial
  | updateStatus id isActive =>
      apply wp_lift_paged
      apply wp_mono wp_setUserStatus
      rintro _ world' (hunchanged | ⟨row, -, hchanged⟩)
      · exact .of_unchanged hinvariant hunchanged
      · exact .of_changed_users hinvariant hchanged
  | createUser dto => contradiction
  | bootstrapAdmin dto bootstrapToken => contradiction

/-! ## A served request -/

/-- What a served request may change, and who it answers. -/
def ServedAs (config : Config) (faults : Bool) (token : Option TokenPayload) (route : Route)
    (world : World) (result : Except Exception route.Result) (world' : World) : Prop :=
  (ChangesOnly config.tablePrefix (IsUsersTable config.tablePrefix world.tables) world world' ∨
      (route.changesPolicy = true ∧ route.Entitled config faults world token)) ∧
    ∀ answer, result = .ok answer → route.Entitled config faults world token

/-- The users table may be changed without changing the policy. -/
theorem users_outside_policy (hinvariant : CacheInvariant config.tablePrefix world) (id : JsString)
    (h : IsUsersTable config.tablePrefix world.tables id) :
    ¬ IsPolicyTable config.tablePrefix world.tables id :=
  not_isPolicyTable_of_users hinvariant.2 h

/-- A request of a user that is let in is served by the guard and by the method. -/
theorem wp_serve_user {token : Option TokenPayload} {route : Route} {caller : AuthenticatedUser}
    {entered : World} (hinvariant : CacheInvariant config.tablePrefix world)
    (hpublic : route.isPublic = false)
    (hentered : ChangesOnly config.tablePrefix (IsUsersTable config.tablePrefix world.tables) world
      entered)
    (hcaller : Authenticates config faults world token caller) :
    wp (pagedNocodb order faults).contract
      (do
        (route.authorize config (some caller)).lift
        route.handle config)
      (ServedAs config faults token route world) entered := by
  rw [wp_bind]
  apply wp_lift_paged
  apply wp_mono (wp_authorize hentered.invariant)
  rintro (exception | _) admitted ⟨hread, hadmits⟩
  · exact ⟨Or.inl (hentered.trans (.of_onlyRead hread)), nofun⟩
  · have hentitled : route.Entitled config faults world token := by
      have h := hadmits rfl
      cases route with
      | admin route =>
          have hsame := hentered.admits_iff (users_outside_policy hinvariant)
            (route.required.getD []) (some (requestUser caller))
          exact ⟨caller, hcaller, hsame.mp h⟩
      | bootstrapAdmin dto bootstrapToken => contradiction
      | _ => exact ⟨caller, hcaller, h⟩
    have hadmitted := hentered.trans (.of_onlyRead hread)
    rw [onOk_ok]
    by_cases hpolicy : route.changesPolicy = true
    · rw [System.wp_iff_exec]
      intro result world' _
      exact ⟨Or.inr ⟨hpolicy, hentitled⟩, fun _ _ => hentitled⟩
    · apply wp_mono (wp_handle_quiet (Bool.eq_false_of_not_eq_true hpolicy) hadmitted.invariant)
      intro result world' hquiet
      rw [hadmitted.tables] at hquiet
      exact ⟨Or.inl (hadmitted.trans hquiet), fun _ _ => hentitled⟩

/-- A served request leaves the policy alone, or is entitled to change it; and it is answered
with a result only if it is entitled. -/
theorem wp_serve {token : Option TokenPayload} {route : Route}
    (hinvariant : CacheInvariant config.tablePrefix world) :
    wp (pagedNocodb order faults).contract (serve config token route)
      (ServedAs config faults token route world) world := by
  rw [serve, wp_bind]
  apply wp_lift_paged
  apply wp_mono (wp_authenticate hinvariant)
  rintro (exception | user) entered ⟨hentered, huser⟩
  · refine ⟨Or.inl hentered, ?_⟩
    intro answer hanswer
    contradiction
  · have hcaller := huser user rfl
    rw [onOk_ok]
    by_cases hpublic : route.isPublic = true
    · rw [if_pos hpublic] at hcaller
      subst hcaller
      cases route with
      | bootstrapAdmin dto bootstrapToken =>
          -- the token is checked before anything else is done
          show wp _ (Auth.bootstrapAdmin config.tablePrefix config.bootstrapToken dto
            bootstrapToken).lift _ entered
          apply wp_lift_paged
          rw [Auth.bootstrapAdmin]
          cases hallowed : assertBootstrapAllowed config.bootstrapToken bootstrapToken with
          | error exception =>
              refine ⟨Or.inl hentered, ?_⟩
              intro answer hanswer
              contradiction
          | ok _ =>
              rw [System.wp_iff_exec]
              intro result world' _
              exact ⟨Or.inr ⟨rfl, hallowed⟩, fun _ _ => hallowed⟩
      | _ => contradiction
    · rw [if_neg hpublic] at hcaller
      obtain ⟨caller, rfl, hauthenticates⟩ := hcaller
      exact wp_serve_user hinvariant (Bool.eq_false_of_not_eq_true hpublic) hentered
        hauthenticates

end

end Http
end NocoMiddleware
