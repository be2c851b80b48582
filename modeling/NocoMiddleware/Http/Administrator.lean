import NocoMiddleware.Http.ServerRuns
import NocoMiddleware.Runs.BootstrapRuns
import NocoMiddleware.Runs.Startup

/-!
# From an empty base to an administrator

A startup completes the base, `bootstrapAdmin` gives the admin role to a user, and from then on
`PermissionsGuard` lets the user use every route of the administration, as long as nobody who is
entitled to it changes the policy.  Neither the startup nor `bootstrapAdmin` touches the permission
cache.
-/

namespace NocoMiddleware
namespace Http

open NocoMiddleware.Js NocoMiddleware.Filter NocoMiddleware.Tables NocoMiddleware.Store
open NocoMiddleware.Permissions NocoMiddleware.Users NocoMiddleware.Auth NocoMiddleware.Foundation
open NocoMiddleware.Runs

/-! ## The permission cache during a startup -/

/-- The request leaves the permission cache alone. -/
def LeavesCache : Op ⊕ SchemaOp → Prop
  | .inl op => WritesTo (fun _ => True) (.inl op)
  | .inr _ => True

theorem cache_of_schemaAnswer (choice : StartupChoice) (base : Base) (op : SchemaOp) :
    (schemaAnswer choice base op).2.world.cache = base.world.cache := by
  cases op with
  | createTable title description fields => rfl
  | getTableMetadata tableId =>
      rw [schemaAnswer]
      split
      · rfl
      · rfl
  | createColumn tableId field =>
      rw [schemaAnswer]
      split
      · rfl
      · rfl

theorem cache_of_schemaStep {faults : Bool} {op : Op ⊕ SchemaOp} {base base' : Base}
    {answer : Except Exception (Sum.elim Res SchemaRes op)} (hop : LeavesCache op)
    (hstep : (nocodbBase faults).contract.step op base answer base') :
    base'.world.cache = base.world.cache := by
  cases op with
  | inl op =>
      obtain ⟨world, hmove, rfl⟩ := (nocodbBase_extends faults).step op base answer base' hstep
      have hwrites : WritesOnly (fun _ => True) base.world world :=
        writesOnly_of_step hop
          (show (pagedNocodb numericOrder faults).contract.step (.inl op) base.world answer world
            from hmove)
      exact hwrites.cache
  | inr op =>
      obtain ⟨choice, -, hrespond⟩ := hstep
      have hresponse : startupRespond choice base (.inr op) = (answer, base') := hrespond
      obtain rfl : (startupRespond choice base (.inr op)).2 = base' := by rw [hresponse]
      by_cases hfails : choice.choice.fails = true
      · have hfailed : startupRespond choice base (.inr op) =
            (.error .upstream, base.advance choice.choice.elapsed) := if_pos hfails
        rw [hfailed]
        rfl
      · rw [startupRespond_of_not_fails op (Bool.eq_false_of_not_eq_true hfails)]
        exact cache_of_schemaAnswer choice _ op

section

variable {tablePrefix : JsString}

theorem uses_request {op : SchemaOp} : (request op).Uses LeavesCache :=
  ⟨trivial, fun _ => trivial⟩

theorem uses_ensureFieldsExist {tableId : JsString} {fields : List NocoField} :
    (ensureFieldsExist tableId fields).Uses LeavesCache := by
  apply Program.Uses.tryCatch
  · apply uses_request.bind
    intro tableMetadata
    apply Program.Uses.forM
    intro field
    unfold ensureFieldExists
    split
    · trivial
    · exact uses_request.tryCatch fun _ => trivial
  · exact fun _ => trivial

theorem uses_ensureTableExists {tableDef : TableDefinition} :
    (ensureTableExists tablePrefix tableDef).Uses LeavesCache := by
  have hlookup : ((getTableByName tablePrefix tableDef.tableName).lift :
      Startup (Option TableMeta)).Uses LeavesCache := by
    apply Program.Uses.lift
    exact uses_getTableByName
  unfold ensureTableExists
  apply hlookup.bind
  intro existingTable
  cases existingTable with
  | some existingTable =>
      apply Program.Uses.bind
      · unfold assertNoLegacyLinkFields
        split
        · trivial
        · apply uses_request.bind
          intro fields
          split
          · trivial
          · trivial
      · intro _
        exact uses_ensureFieldsExist.bind fun _ => trivial
  | none =>
      apply Program.Uses.tryCatch
      · apply uses_request.bind
        intro response
        trivial
      · exact fun _ => trivial

theorem uses_ensureAdminPermissions {permissionsTableId : JsString} {adminRoleId : JsNumber} :
    (ensureAdminPermissions permissionsTableId adminRoleId).Uses
      fun op => LeavesCache (.inl op) := by
  apply Program.Uses.forM
  intro table
  unfold ensureAdminPermission
  apply (Program.uses_ofExcept _).bind
  intro filter
  apply Program.Uses.bind
  · exact (Program.uses_call trivial).bind fun _ => trivial
  · intro existing
    split
    · apply (Program.uses_ofExcept _).bind
      intro recordId
      exact (Program.uses_call trivial).bind fun _ => trivial
    · exact (Program.uses_call trivial).bind fun _ => trivial

theorem uses_seedDefaultPermissions :
    (seedDefaultPermissions tablePrefix).Uses fun op => LeavesCache (.inl op) := by
  apply Program.Uses.tryCatch
  · unfold seedPermissions
    apply uses_getTableByName.bind
    intro rolesTable
    apply uses_getTableByName.bind
    intro permissionsTable
    cases rolesTable with
    | none => trivial
    | some rolesTable =>
        cases permissionsTable with
        | none => trivial
        | some permissionsTable =>
            apply (Program.uses_ofExcept _).bind
            intro filter
            apply (Program.uses_call trivial).bind
            intro rolesResult
            have hrest : ∀ adminRole, (do
                let adminRoleId ← Program.ofExcept (extractNumericId adminRole)
                ensureAdminPermissions permissionsTable.id adminRoleId).Uses
                  fun op => LeavesCache (.inl op) := by
              intro adminRole
              apply (Program.uses_ofExcept _).bind
              intro adminRoleId
              exact uses_ensureAdminPermissions
            split
            · exact hrest _
            · exact (Program.uses_call trivial).bind hrest
  · exact fun _ => trivial

theorem uses_onModuleInit : (onModuleInit tablePrefix).Uses LeavesCache := by
  unfold onModuleInit initializeTables
  induction systemTableDefinitions with
  | nil => exact uses_seedDefaultPermissions.lift
  | cons tableDef remaining ih =>
      apply uses_ensureTableExists.bind
      intro tableId
      split
      · trivial
      · exact ih

/-- A startup leaves the permission cache alone. -/
theorem cache_of_startup {faults : Bool} {base base' : Base} {result : Except Exception PUnit}
    (hexec : Exec (nocodbBase faults).contract (onModuleInit tablePrefix) base result base') :
    base'.world.cache = base.world.cache := by
  have hkept : wp (nocodbBase faults).contract (onModuleInit tablePrefix)
      (fun _ base' => base'.world.cache = base.world.cache) base := by
    apply wp_of_uses _ _ _ _ uses_onModuleInit base
    · intro base
      rfl
    · intro first second third h h'
      exact h'.trans h
    · intro _ _ _
      trivial
    · intro op base answer base' hop hstep
      exact cache_of_schemaStep hop hstep
  exact wp_sound hkept hexec

end

/-! ## The administrator -/

/-- The user has a role with all rights on each system table. -/
structure Administers (tablePrefix : JsString) (world : World) (userId : JsNumber) : Prop where
  tables : ∀ table : SystemTable,
    (resolve tablePrefix world.tables table.name).isSome = true
  role : ∃ roleId, HoldsRole tablePrefix world userId roleId ∧
    ∀ table : SystemTable, ∃ row ∈ systemRows tablePrefix world .tablePermissions,
      ∀ action : CrudAction, Permits row roleId table.name action

section

variable {tablePrefix : JsString} {base base' : Base} {world world' : World}

theorem Administers.grants {userId : JsNumber} (h : Administers tablePrefix world userId)
    (table : SystemTable) (action : CrudAction) :
    Grants tablePrefix world userId table.name action := by
  obtain ⟨roleId, hholds, hpermits⟩ := h.role
  obtain ⟨row, hrow, hall⟩ := hpermits table
  exact ⟨h.tables, roleId, hholds, row, hrow, hall action⟩

/-- A startup leaves all system tables behind, and the rights of the role that `bootstrapAdmin`
looks for. -/
theorem adminRights_of_started (h : Started tablePrefix base base')
    (hplain : ∀ row ∈ systemRows tablePrefix base'.world .roles, row.id < 10 ^ 21) :
    (∀ table : SystemTable, (resolve tablePrefix base'.world.tables table.name).isSome = true) ∧
      ∀ role, adminRole tablePrefix base'.world = some role →
        ∀ table : SystemTable, ∃ row ∈ systemRows tablePrefix base'.world .tablePermissions,
          ∀ action : CrudAction, Permits row role.id table.name action := by
  constructor
  · intro table
    obtain ⟨found, hfound, -⟩ := h.hasFields table
    have hresolve : resolve tablePrefix base'.world.tables table.name = some found := hfound
    rw [hresolve]
    rfl
  · intro role hrole table
    have hroles : resolve tablePrefix base'.world.tables SystemTable.roles.name =
        some h.rolesTable := by
      rw [h.tables, h.roles]
    have hpermissions : resolve tablePrefix base'.world.tables SystemTable.tablePermissions.name =
        some h.permissionsTable := by
      rw [h.tables, h.permissions]
    have hmem := (mem_of_lookup hrole).1
    -- the seeding and `bootstrapAdmin` look for the same row
    have hid : role.id = h.role := by
      have hadmin := h.seeded.admin
      rw [adminRole, lookup, systemRows_eq hroles] at hrole
      have hfind : (base'.world.rows h.rolesTable.id).rows.find? (fun row => IsAdminRole row) =
          some role := hrole
      rw [adminRoleId, hfind, Option.map_some] at hadmin
      exact Option.some.inj hadmin
    have hlt := hplain role hmem
    rw [hid] at hlt ⊢
    obtain ⟨row, hrow, ⟨hrowRole, hrowTable⟩, hrights⟩ := (h.seeded.holds hlt table).rights
    rw [systemRows_eq hpermissions]
    refine ⟨row, hrow, ?_⟩
    intro action
    refine ⟨hrowRole, hrowTable, ?_, ?_⟩
    · cases table <;> decide
    · rw [hrights action]
      rfl

/-- The user that a run answers with has the role. -/
theorem hasRole_of_answered {dto : BootstrapAdminDto} {answer : BootstrappedAdmin}
    (h : Answered tablePrefix dto world answer world') :
    ∃ user role : Row, answer.userId = .ofNat user.id ∧
      adminRole tablePrefix world = some role ∧ HasRole tablePrefix world' user role := by
  cases h with
  | known huser hrole hhas hunchanged =>
      obtain ⟨row, hrow, hassignment⟩ := hhas
      refine ⟨_, _, rfl, hrole, row, ?_, hassignment⟩
      rwa [hunchanged.systemRows_eq]
  | assigned huser hrole habsent hgives => exact ⟨_, _, rfl, hrole, hasRole_of_gives hgives⟩
  | created hfree hrole hcreates hgives => exact ⟨_, _, rfl, hrole, hasRole_of_gives hgives⟩

/-- `bootstrapAdmin` inserts rows at most, and leaves the permission cache alone. -/
theorem kept_of_answered {dto : BootstrapAdminDto} {answer : BootstrappedAdmin}
    (h : Answered tablePrefix dto world answer world') :
    world'.tables = world.tables ∧ world'.cache = world.cache ∧
      ∀ table, ∀ row ∈ systemRows tablePrefix world table,
        row ∈ systemRows tablePrefix world' table := by
  cases h with
  | known huser hrole hhas hunchanged =>
      refine ⟨hunchanged.tables, hunchanged.cache, ?_⟩
      intro table row hrow
      rwa [hunchanged.systemRows_eq]
  | assigned huser hrole habsent hgives =>
      obtain ⟨_, -, hchanged⟩ := hgives
      exact ⟨hchanged.tables, hchanged.cache, fun _ _ hrow => hchanged.mem_of_insert hrow⟩
  | created hfree hrole hcreates hgives =>
      obtain ⟨-, hcreated⟩ := hcreates
      obtain ⟨_, -, hchanged⟩ := hgives
      refine ⟨hchanged.tables.trans hcreated.tables, hchanged.cache.trans hcreated.cache, ?_⟩
      intro table row hrow
      exact hchanged.mem_of_insert (hcreated.mem_of_insert hrow)

/-- After a startup, whoever `bootstrapAdmin` answers with is an administrator. -/
theorem administers_of_answered {dto : BootstrapAdminDto} {answer : BootstrappedAdmin}
    (hstarted : Started tablePrefix base base')
    (hplain : ∀ row ∈ systemRows tablePrefix base'.world .roles, row.id < 10 ^ 21)
    (h : Answered tablePrefix dto base'.world answer world) :
    Administers tablePrefix world answer.userId ∧ answer.userId.truthy = true := by
  obtain ⟨htables, hrights⟩ := adminRights_of_started hstarted hplain
  obtain ⟨user, role, hid, hrole, assignment, hassignment, hassigned, hassignedRole⟩ :=
    hasRole_of_answered h
  obtain ⟨hsame, -, hkept⟩ := kept_of_answered h
  constructor
  · constructor
    · intro table
      rw [hsame]
      exact htables table
    · refine ⟨role.id, ⟨role.positive, ?_, ?_⟩, ?_⟩
      · refine ⟨assignment, hassignment, ?_, ?_⟩
        · rw [hid]
          exact hassigned
        · rw [hassignedRole]
          rfl
      · exact ⟨role, hkept .roles role (mem_of_lookup hrole).1, rfl⟩
      · intro table
        obtain ⟨row, hrow, hall⟩ := hrights role hrole table
        exact ⟨row, hkept .tablePermissions row hrow, hall⟩
  · rw [hid]
    exact JsNumber.truthy_ofNat user.positive

end

/-! ## Main result -/

/-- Every route asks for one right on a system table. -/
theorem AdminRoute.required_eq (route : AdminRoute) :
    ∃ (table : SystemTable) (action : CrudAction), route.required = some [⟨table.name, action⟩] := by
  cases route <;> exact ⟨_, _, rfl⟩

/-- From any base that a startup can complete, after the startup and a `bootstrapAdmin` that is
answered: as long as nobody who is entitled to it changes the policy, the user of the answer has
all rights on the system tables, and the guard lets it use every route of the administration. -/
theorem administrator_admitted (config : Config) (upstream : Upstream) {base base' : Base}
    {started : Except Exception PUnit} (hstart : Startable config.tablePrefix base)
    (hempty : base.world.cache = .empty)
    (hstarts : Exec (nocodbBase false).contract (onModuleInit config.tablePrefix) base started
      base')
    (hplain : ∀ row ∈ systemRows config.tablePrefix base'.world .roles, row.id < 10 ^ 21)
    (hdistinct : DistinctTables config.tablePrefix base'.world.tables)
    {token : Option TokenPayload}
    {dto : BootstrapAdminDto} {bootstrapToken : Option JsString} {answer : BootstrappedAdmin}
    {bootstrapped : World}
    (hbootstraps : Exec (pagedNocodb upstream.order upstream.faults).contract
      (serve config token (.bootstrapAdmin dto bootstrapToken)) base'.world (.ok answer)
      bootstrapped)
    {last : Server}
    (hrun : Relation.ReflTransGen (ServerStep config upstream fun request server =>
      ¬ request.MayChangePolicy config upstream.faults server.world) ⟨bootstrapped, .empty⟩ last) :
    (∀ (table : SystemTable) action,
      Grants config.tablePrefix last.world answer.userId table.name action) ∧
      ∀ (user : AuthenticatedUser) (route : AdminRoute), user.userId = answer.userId →
        ∀ result world, Exec (nocodb false).contract
          ((Route.admin route).authorize config (some user)) last.world result world →
            result = .ok () := by
  obtain ⟨-, ⟨hstarted⟩⟩ := started_of_exec hstart hstarts
  have hanswered : Answered config.tablePrefix dto base'.world answer bootstrapped := by
    have hend : wp (pagedNocodb upstream.order upstream.faults).contract
        (Auth.bootstrapAdmin config.tablePrefix config.bootstrapToken dto bootstrapToken).lift
        (Ended upstream.faults config.tablePrefix dto config.bootstrapToken bootstrapToken
          base'.world) base'.world := by
      apply wp_lift_paged
      rw [System.wp_iff_exec]
      intro _ _ hexec
      exact wpc_sound wpc_bootstrapAdmin hexec
    obtain ⟨-, -, h⟩ := wp_sound hend hbootstraps
    exact h
  obtain ⟨hadministers, htruthy⟩ := administers_of_answered hstarted hplain hanswered
  obtain ⟨htables, hcache, -⟩ := kept_of_answered hanswered
  have hsound : Sound config ⟨bootstrapped, .empty⟩ := by
    apply sound_of_empty _ rfl
    · rwa [htables]
    · rw [hcache, cache_of_startup hstarts]
      exact hempty
  obtain ⟨hlast, hkept⟩ := policyKept_of_run hsound hrun
  have hgrants : ∀ (table : SystemTable) action,
      Grants config.tablePrefix last.world answer.userId table.name action := by
    intro table action
    exact (hkept.grants_iff (fun _ hid => hid) _ _ _).mpr (hadministers.grants table action)
  refine ⟨hgrants, ?_⟩
  intro user route huser result world hexec
  have hadmits : Http.Admits config.tablePrefix last.world (route.required.getD [])
      (some (requestUser user)) := by
    right
    refine ⟨_, rfl, ?_, ?_⟩
    · show user.userId.truthy = true
      rw [huser]
      exact htruthy
    · intro permission hpermission
      obtain ⟨table, action, hrequired⟩ := route.required_eq
      rw [hrequired, Option.getD_some, List.mem_singleton] at hpermission
      right
      show Grants _ _ user.userId _ _
      rw [huser, hpermission]
      exact hgrants table action
  have hguard : wp (nocodb false).contract ((Route.admin route).authorize config (some user))
      (fun result _ => result = .ok ()) last.world := by
    show wp _ (canActivate config.tablePrefix route.required none
      (some (requestUser user)) >>= require) _ last.world
    rw [wp_bind]
    apply wp_mono (wp_canActivate hlast.invariant)
    rintro (exception | admitted) _ ⟨-, hresult⟩
    · rw [getAllAndOverride, Option.or_none] at hresult
      exact absurd hadmits (not_admits_of_denied hresult)
    · obtain ⟨rfl, -⟩ := hresult
      rfl
  have hresult := wp_sound hguard hexec
  exact hresult

/-- A deployment without a table prefix, whose token for administrators is `token`. -/
def adminConfig : Config :=
  ⟨[], .ascii, .localNocodb, some (js "token")⟩

/-- The request that makes `alice` an administrator. -/
@[reducible] def bootstrapAlice : Route :=
  .bootstrapAdmin (rootDto (js "alice")) (some (js "token"))

/-- The store after the startup and the request. -/
def aliceWorld : World :=
  (pagedNocodb numericOrder false).final (serve adminConfig none bootstrapAlice) (prompt 20)
    (startedBase 3).world

/-- The token of `alice`. -/
def aliceToken : Option TokenPayload :=
  some ⟨some (.string (js "9")), none, none, none, none, none, none, none⟩

/-- `alice` asks for the roles. -/
@[reducible] def aliceReadsRoles : Route :=
  .admin (.getAllRoles .initial)

/-- The store after that request. -/
def servedWorld : World :=
  (pagedNocodb numericOrder false).final (serve adminConfig aliceToken aliceReadsRoles)
    (prompt 40) aliceWorld

/-- The page that shows the one role there is. -/
def rolesPage : PageDto NocoRecord :=
  pageOf [⟨.number (.ofNat 3), [(js "role_name", .string (js "admin"))]⟩] 10 1

theorem serves_of_exec {config : Config} {upstream : Upstream} {token : Option TokenPayload}
    {route : Route} {world world' : World} {result : Except Exception route.Result}
    {tables : Data.TableCache}
    (h : Exec (pagedNocodb upstream.order upstream.faults).contract (serve config token route)
      world result world') :
    (Request.ofRoute token route).Serves config upstream ⟨world, tables⟩ ⟨world', tables⟩ :=
  ⟨rfl, result, h⟩

/-- Who reads the roles does not change the policy. -/
theorem not_mayChangePolicy_aliceReadsRoles {faults : Bool} {world : World} :
    ¬ (Request.ofRoute aliceToken aliceReadsRoles).MayChangePolicy adminConfig faults world := by
  rintro ⟨hchanges, -⟩
  exact Bool.noConfusion hchanges

theorem aliceReadsRoles_served : Exec (pagedNocodb numericOrder false).contract
    (serve adminConfig aliceToken aliceReadsRoles) aliceWorld (.ok rolesPage) servedWorld :=
  System.exec_final _ (by decide +kernel)

/-- On a base with an admin role and an incomplete table of permissions, `alice` becomes the user 9
and may use the administration, also after it has been shown the roles. -/
theorem administrator_admitted_alice :
    Exec (pagedNocodb numericOrder false).contract (serve adminConfig aliceToken aliceReadsRoles)
        aliceWorld (.ok rolesPage) servedWorld ∧
      (∀ (table : SystemTable) action, Grants [] servedWorld (.ofNat 9) table.name action) ∧
      ∀ (user : AuthenticatedUser) (route : AdminRoute), user.userId = .ofNat 9 →
        ∀ result world, Exec (nocodb false).contract
          ((Route.admin route).authorize adminConfig (some user)) servedWorld result world →
            result = .ok () := by
  have hstarts : Exec (nocodbBase false).contract (onModuleInit []) (partialBase 3) (.ok ⟨⟩)
      (startedBase 3) := System.exec_final _ (by decide +kernel)
  have hbootstraps : Exec (pagedNocodb numericOrder false).contract
      (serve adminConfig none bootstrapAlice) (startedBase 3).world
      (.ok ⟨true, .ofNat 9, js "alice", true⟩) aliceWorld :=
    System.exec_final _ (by decide +kernel)
  have hids : ((startedBase 3).world.tables.map TableMeta.id).Nodup := by
    decide +kernel
  have hnames : ∀ table ∈ (startedBase 3).world.tables, table.table_name = none := by
    decide +kernel
  have hplain : ∀ row ∈ systemRows [] (startedBase 3).world .roles, row.id < 10 ^ 21 := by
    decide +kernel
  have hserves : (Request.ofRoute aliceToken aliceReadsRoles).Serves adminConfig ordersUpstream
      ⟨aliceWorld, .empty⟩ ⟨servedWorld, .empty⟩ := serves_of_exec aliceReadsRoles_served
  have hadmitted := administrator_admitted adminConfig ordersUpstream (startable_partialBase 3) rfl
    hstarts hplain (distinctTables_of_titles hids hnames) hbootstraps
    (.single (Or.inr ⟨_, not_mayChangePolicy_aliceReadsRoles, hserves⟩))
  -- the projections go first, as comparing with them would run `servedWorld`
  dsimp only at hadmitted
  exact ⟨aliceReadsRoles_served, hadmitted⟩

end Http
end NocoMiddleware
