import NocoMiddleware.Foundation.Reliance
import NocoMiddleware.Http.DataGuard
import NocoMiddleware.Http.Authority

/-!
# Programs without power over the policy

Requests are served concurrently, so a permission check may be overtaken by others at each of its
steps.  `Quiet` are the operations that leave the policy of a first world alone and put nothing
into the permission cache but what that world grants.  While all others are quiet, a check is
answered as if nobody else were there.
-/

namespace NocoMiddleware
namespace Http

open NocoMiddleware.Js NocoMiddleware.Filter NocoMiddleware.Tables NocoMiddleware.Store
open NocoMiddleware.Permissions NocoMiddleware.Users NocoMiddleware.Auth NocoMiddleware.Data
open NocoMiddleware.Foundation NocoMiddleware.Runs

/-! ## Quiet operations -/

/-- The permissions allow exactly what the tables of the world grant. -/
def TellsGrants (tablePrefix : JsString) (world : World) (userId : JsNumber)
    (value : UserPermissions) : Prop :=
  ∀ table action, value.allows table action = true ↔
    Grants tablePrefix world userId table action

/-- The operation writes to tables with these ids at most, and caches what `first` grants. -/
def Quiet (tablePrefix : JsString) (first : World) (ids : JsString → Prop) (op : Op ⊕ PageOp) :
    Prop :=
  WritesTo ids op ∨ ∃ userId value, op = .inl (.cachePermissions userId value) ∧
    TellsGrants tablePrefix first userId value

/-- What is known of an answer: the tables of `first`, the rows of its policy and what it grants. -/
def Sees (tablePrefix : JsString) (first : World) :
    (op : Op ⊕ PageOp) → Except Exception (Sum.elim Res PageRes op) → Prop
  | .inl .listTables, .ok found => found = first.tables
  | .inl (.listAll tableId filter fields), .ok records =>
      IsPolicyTable tablePrefix first.tables tableId →
        ∃ rows, selectRows filter (first.rows tableId).rows = some rows ∧
          records = rows.map (flattenRecord fields)
  | .inl (.cacheGet userId), .ok (some value) => TellsGrants tablePrefix first userId value
  | _, _ => True

section

variable {tablePrefix : JsString} {ids : JsString → Prop} {first world world' : World}
  {order : SortOrder} {faults : Bool}

theorem writesTo_mono {more : JsString → Prop} {op : Op ⊕ PageOp} (h : WritesTo ids op)
    (hids : ∀ id, ids id → more id) : WritesTo more op := by
  cases op with
  | inr op => exact h
  | inl op =>
      cases op with
      | create tableId data => exact hids tableId h
      | update tableId recordId data => exact hids tableId h
      | delete tableId recordId => exact hids tableId h
      | _ => exact h

theorem Quiet.mono {more : JsString → Prop} {op : Op ⊕ PageOp} (h : Quiet tablePrefix first ids op)
    (hids : ∀ id, ids id → more id) : Quiet tablePrefix first more op :=
  h.imp_left fun hwrites => writesTo_mono hwrites hids

/-- A quiet operation changes the tables only that it may write to. -/
theorem changesOnly_of_quiet {op : Op ⊕ PageOp}
    {answer : Except Exception (Sum.elim Res PageRes op)}
    (hids : ∀ id, ids id → ¬ IsPolicyTable tablePrefix first.tables id)
    (hkept : ChangesOnly tablePrefix ids first world) (hop : Quiet tablePrefix first ids op)
    (hstep : (pagedNocodb order faults).contract.step op world answer world') :
    ChangesOnly tablePrefix ids first world' := by
  have hids' : ∀ id, ids id → ¬ IsPolicyTable tablePrefix world.tables id := by
    rw [hkept.tables]
    exact hids
  rcases hop with hwrites | ⟨userId, value, rfl, htells⟩
  · exact hkept.trans (.of_writesOnly hkept.invariant hids' (writesOnly_of_step hwrites hstep))
  · have hmove : (nocodb faults).contract.step (.cachePermissions userId value) world answer
        world' := hstep
    have htables := tables_of_step hmove
    have hrows := rows_of_step hmove rfl
    have hgrants : ∀ userId table action, Grants tablePrefix world' userId table action ↔
        Grants tablePrefix first userId table action := by
      apply grants_of_policyRows (htables.trans hkept.tables)
      intro table hne
      rw [systemRows_of_step hmove rfl, hkept.policyRows_eq hids table hne]
    refine ⟨htables.trans hkept.tables, ?_, ?_, ?_⟩
    · intro tableId hother
      rw [hrows, hkept.elsewhere tableId hother]
    · intro other found hlive table action
      rw [hgrants]
      rcases live_of_step hmove hlive with hinserted | ⟨-, hlive⟩
      · obtain ⟨rfl, rfl⟩ := Op.cachePermissions.inj hinserted
        exact htells table action
      · rw [hkept.invariant.1 other found hlive, hkept.grants_iff hids]
    · rw [htables]
      exact hkept.invariant.2

/-- What is answered where only other tables have been changed. -/
theorem sees_of_step {op : Op ⊕ PageOp} {answer : Except Exception (Sum.elim Res PageRes op)}
    (hids : ∀ id, ids id → ¬ IsPolicyTable tablePrefix first.tables id)
    (hkept : ChangesOnly tablePrefix ids first world)
    (hstep : (pagedNocodb order faults).contract.step op world answer world') :
    Sees tablePrefix first op answer := by
  cases op with
  | inr op => trivial
  | inl op =>
      have hmove : (nocodb faults).contract.step op world answer world' := hstep
      cases answer with
      | error exception => cases op <;> trivial
      | ok value =>
          cases op with
          | listTables =>
              obtain ⟨choice, earlier, hearlier, ⟨-, hfailed, -⟩ | hanswer⟩ := answer_of_step hmove
              · contradiction
              · obtain ⟨hvalue, -⟩ := Prod.mk.inj hanswer
                obtain rfl := Except.ok.inj hvalue
                exact hearlier.tables.trans hkept.tables
          | listAll tableId filter fields =>
              intro hpolicy
              rw [← hkept.elsewhere tableId fun hid => hids tableId hid hpolicy]
              obtain ⟨choice, earlier, hearlier, ⟨-, hfailed, -⟩ | hanswer⟩ := answer_of_step hmove
              · contradiction
              · rw [← hearlier.rows]
                rw [Store.answer] at hanswer
                split at hanswer
                · cases (Prod.mk.inj hanswer).1
                · next rows hrows =>
                    exact ⟨rows, hrows, (Except.ok.inj (Prod.mk.inj hanswer).1).symm⟩
          | cacheGet userId =>
              cases value with
              | none => trivial
              | some found =>
                  intro table action
                  rw [hkept.invariant.1 userId found (live_of_cacheGet hmove),
                    hkept.grants_iff hids]
          | _ => trivial

end

/-! ## Permission checks -/

section

variable (tablePrefix : JsString) (first : World) (ids : JsString → Prop)

/-- What a program among quiet ones ensures, if it is quiet itself. -/
abbrev Quietly {α : Type} (program : Paging α) (post : α → Prop) : Prop :=
  program.Ensures (Quiet tablePrefix first ids) (Sees tablePrefix first) post

/-- What a service among quiet programs ensures, if it is quiet itself. -/
abbrev QuietService {α : Type} (program : Service α) (post : α → Prop) : Prop :=
  program.Ensures (fun op => Quiet tablePrefix first ids (.inl op))
    (fun op => Sees tablePrefix first (.inl op)) post

end

section

variable {tablePrefix : JsString} {ids : JsString → Prop} {first : World} {userId : JsNumber}
  {username : JsValue}

theorem ensures_of_writesTo {α : Type} {program : Service α}
    (h : program.Uses fun op => WritesTo ids (.inl op)) :
    QuietService tablePrefix first ids program fun _ => True :=
  Program.ensures_of_uses (h.mono fun _ hop => Or.inl hop)

theorem ensures_quietCall {op : Op} (h : WritesTo ids (.inl op)) :
    QuietService tablePrefix first ids (Program.call op)
      fun value => Sees tablePrefix first (.inl op) (.ok value) :=
  Program.ensures_call (Or.inl h)

theorem ensures_getTableByName {name : JsString} :
    QuietService tablePrefix first ids (getTableByName tablePrefix name)
      fun found => found = resolve tablePrefix first.tables name := by
  refine (ensures_quietCall ?_).bind ?_
  · trivial
  intro tables htables
  apply Program.ensures_pure
  rw [show tables = first.tables from htables]

/-- A listing of a table of the policy. -/
theorem ensures_listAll {table : SystemTable} (hne : table ≠ .users) {found : TableMeta}
    (hfound : resolve tablePrefix first.tables table.name = some found) {filter : JsString}
    {fields : Option (List JsString)} {rows : List Row}
    (hselect : selectRows filter (systemRows tablePrefix first table) = some rows) :
    QuietService tablePrefix first ids (listAll found.id filter fields)
      fun records => records = rows.map (flattenRecord fields) := by
  refine (ensures_quietCall ?_).mono ?_
  · trivial
  intro records hrecords
  obtain ⟨selected, hselected, hrecords⟩ := hrecords ⟨table, hne, found, hfound, rfl⟩
  rw [← systemRows_eq hfound, hselect] at hselected
  rw [hrecords, Option.some.inj hselected]

/-- No permissions are right if nothing is granted. -/
theorem tellsGrants_empty
    (hnone : ∀ table action, ¬ Grants tablePrefix first userId table action) :
    TellsGrants tablePrefix first userId (createEmptyPermissions userId username) := by
  intro table action
  apply iff_of_false
  · simp [UserPermissions.allows, createEmptyPermissions]
  · exact hnone table action

/-- What has been loaded is put into the cache and returned. -/
theorem ensures_cachePermissions {value : UserPermissions}
    (h : TellsGrants tablePrefix first userId value) :
    QuietService tablePrefix first ids
      (do
        Program.call (Op.cachePermissions userId value)
        return value)
      (TellsGrants tablePrefix first userId) := by
  have hcall : QuietService tablePrefix first ids
      (Program.call (Op.cachePermissions userId value)) fun _ => True := by
    refine (Program.ensures_call ?_).mono fun _ _ => trivial
    exact Or.inr ⟨userId, value, rfl, h⟩
  apply hcall.bind
  intro _ _
  exact Program.ensures_pure h

theorem ensures_loadTablePermissions {roleNames : List JsValue}
    {existingRoleIds activeRoleIds : List JsNumber} (hne : activeRoleIds ≠ [])
    (hactive : ∀ id ∈ activeRoleIds, id ∈ existingRoleIds ∧ ∃ n, id = .ofNat n)
    (hgrants : ∀ table action, Grants tablePrefix first userId table action ↔
      RoleGrants tablePrefix first (fun roleId => .ofNat roleId ∈ activeRoleIds) table action) :
    QuietService tablePrefix first ids
      (loadTablePermissions tablePrefix userId username roleNames existingRoleIds activeRoleIds)
      (TellsGrants tablePrefix first userId) := by
  apply ensures_getTableByName.bind
  rintro _ rfl
  cases htable : resolve tablePrefix first.tables SystemTable.tablePermissions.name with
  | none =>
      apply Program.ensures_pure
      apply tellsGrants_empty
      intro table action hgranted
      obtain ⟨hresolved, -⟩ := (hgrants table action).mp hgranted
      rw [htable] at hresolved
      contradiction
  | some permissionsTable =>
      obtain ⟨filter, hfilter⟩ := filterIn_naturals
        (by decide : filterFieldPattern.test (js "role_id") = true) hne
        fun id hid => (hactive id hid).2
      apply (Program.ensures_ofExcept_ok hfilter).bind
      rintro _ rfl
      apply (ensures_listAll (by decide) htable (selectRows_filterIn hfilter _)).bind
      rintro _ rfl
      dsimp only
      apply ensures_cachePermissions
      intro table action
      rw [allows_iff, mapAllows_aggregatePermissions, usable_record_iff hactive, hgrants]
      simp [RoleGrants, htable]

/-- The ids of the assigned roles that exist. -/
theorem mem_existingRoleIds {roleIds : List JsNumber} {rows : List Row} {roleId : Nat} :
    JsNumber.ofNat roleId ∈ (((rows.filter fun row =>
        row.cell (fieldTitle (js "id")) ∈ roleIds.map JsValue.number).map
          (flattenRecord none)).map fun r : NocoRecord => (r.get (js "id")).toNumber) ↔
      JsNumber.ofNat roleId ∈ roleIds ∧ ∃ row ∈ rows, row.id = roleId := by
  have hcell : ∀ row : Row, row.cell (fieldTitle (js "id")) ∈ roleIds.map JsValue.number ↔
      JsNumber.ofNat row.id ∈ roleIds := by
    intro row
    constructor
    · intro h
      obtain ⟨id, hid, heq⟩ := List.mem_map.mp h
      rwa [← JsValue.number.inj heq]
    · intro h
      exact List.mem_map.mpr ⟨.ofNat row.id, h, rfl⟩
  simp only [List.map_map, List.mem_map, List.mem_filter, decide_eq_true_eq, Function.comp_apply,
    get_id_flattenRecord, JsValue.toNumber_number, JsNumber.ofNat_inj, hcell]
  constructor
  · rintro ⟨row, ⟨hrow, hassigned⟩, rfl⟩
    exact ⟨hassigned, row, hrow, rfl⟩
  · rintro ⟨hassigned, row, hrow, rfl⟩
    exact ⟨row, ⟨hrow, hassigned⟩, rfl⟩

theorem ensures_loadRoles {roleIds : List JsNumber} (hne : roleIds ≠ [])
    (hnaturals : ∀ id ∈ roleIds, ∃ n, id = .ofNat n)
    (hgrants : ∀ table action, Grants tablePrefix first userId table action ↔
      (resolve tablePrefix first.tables SystemTable.roles.name).isSome = true ∧
        RoleGrants tablePrefix first (fun roleId => .ofNat roleId ∈ roleIds ∧
          ∃ row ∈ systemRows tablePrefix first .roles, row.id = roleId) table action) :
    QuietService tablePrefix first ids (Permissions.loadRoles tablePrefix userId username roleIds)
      (TellsGrants tablePrefix first userId) := by
  apply ensures_getTableByName.bind
  rintro _ rfl
  cases htable : resolve tablePrefix first.tables SystemTable.roles.name with
  | none =>
      apply Program.ensures_pure
      apply tellsGrants_empty
      intro table action hgranted
      obtain ⟨hresolved, -⟩ := (hgrants table action).mp hgranted
      rw [htable] at hresolved
      contradiction
  | some rolesTable =>
      obtain ⟨filter, hfilter⟩ := filterIn_naturals
        (by decide : filterFieldPattern.test (js "id") = true) hne hnaturals
      apply (Program.ensures_ofExcept_ok hfilter).bind
      rintro _ rfl
      apply (ensures_listAll (by decide) htable (selectRows_filterIn hfilter _)).bind
      rintro _ rfl
      dsimp only
      set existing := (((systemRows tablePrefix first .roles).filter fun row =>
        row.cell (fieldTitle (js "id")) ∈ roleIds.map JsValue.number).map
          (flattenRecord none)).map fun r : NocoRecord => (r.get (js "id")).toNumber
        with hexisting
      have hmem : ∀ roleId, JsNumber.ofNat roleId ∈ (roleIds.filter fun id =>
          existing.contains id) ↔ JsNumber.ofNat roleId ∈ roleIds ∧
            ∃ row ∈ systemRows tablePrefix first .roles, row.id = roleId := by
        intro roleId
        rw [List.mem_filter, List.contains_iff_mem, hexisting, mem_existingRoleIds]
        tauto
      have hactive : ∀ table action, Grants tablePrefix first userId table action ↔
          RoleGrants tablePrefix first (fun roleId => .ofNat roleId ∈ roleIds.filter fun id =>
            existing.contains id) table action := by
        intro table action
        rw [hgrants]
        simp only [hmem, htable, Option.isSome_some, true_and]
      by_cases hnone : (roleIds.filter fun id => existing.contains id) = []
      · rw [if_pos hnone]
        apply Program.ensures_pure
        apply tellsGrants_empty
        intro table action hgranted
        obtain ⟨-, roleId, hid, -⟩ := (hactive table action).mp hgranted
        rw [hnone] at hid
        contradiction
      · rw [if_neg hnone]
        apply ensures_loadTablePermissions hnone _ hactive
        intro id hid
        obtain ⟨hassigned, hexists⟩ := List.mem_filter.mp hid
        exact ⟨List.contains_iff_mem.mp hexists, hnaturals id hassigned⟩

theorem ensures_loadUserRoles
    (hgrants : ∀ table action, Grants tablePrefix first userId table action ↔
      (resolve tablePrefix first.tables SystemTable.userRoles.name).isSome = true ∧
        (resolve tablePrefix first.tables SystemTable.roles.name).isSome = true ∧
        RoleGrants tablePrefix first (HoldsRole tablePrefix first userId) table action) :
    QuietService tablePrefix first ids (loadUserRoles tablePrefix userId username)
      (TellsGrants tablePrefix first userId) := by
  apply ensures_getTableByName.bind
  rintro _ rfl
  cases htable : resolve tablePrefix first.tables SystemTable.userRoles.name with
  | none =>
      apply Program.ensures_pure
      apply tellsGrants_empty
      intro table action hgranted
      obtain ⟨hresolved, -⟩ := (hgrants table action).mp hgranted
      rw [htable] at hresolved
      contradiction
  | some userRolesTable =>
      cases hfilter : filterEq (js "user_id") (.number userId) with
      | error exception => exact Program.ensures_throw exception _
      | ok filter =>
          apply (Program.ensures_ofExcept_ok rfl).bind
          rintro _ rfl
          apply (ensures_listAll (by decide) htable
            (selectRows_filterEq hfilter (by decide) _)).bind
          rintro _ rfl
          dsimp only
          set roleIds := assignedRoleIds (((systemRows tablePrefix first .userRoles).filter
            fun row => row.cell (js "user_id") = .number userId).map
              (flattenRecord (some [js "role_id"]))) with hroleIds
          have hmem : ∀ roleId, JsNumber.ofNat roleId ∈ roleIds ↔ 0 < roleId ∧
              ∃ row ∈ systemRows tablePrefix first .userRoles, Assigns row userId roleId :=
            fun roleId => mem_assignedRoleIds_iff
          have hassigned : ∀ table action, Grants tablePrefix first userId table action ↔
              (resolve tablePrefix first.tables SystemTable.roles.name).isSome = true ∧
                RoleGrants tablePrefix first (fun roleId => .ofNat roleId ∈ roleIds ∧
                  ∃ row ∈ systemRows tablePrefix first .roles, row.id = roleId) table action := by
            intro table action
            rw [hgrants]
            simp only [hmem, RoleGrants, HoldsRole, htable, Option.isSome_some, true_and,
              and_assoc]
          by_cases hnone : roleIds = []
          · rw [if_pos hnone]
            apply Program.ensures_pure
            apply tellsGrants_empty
            intro table action hgranted
            obtain ⟨-, -, roleId, ⟨hid, -⟩, -⟩ := (hassigned table action).mp hgranted
            rw [hnone] at hid
            contradiction
          · rw [if_neg hnone]
            apply ensures_loadRoles hnone _ hassigned
            intro id hid
            obtain ⟨n, -, hn⟩ := (mem_assignedRoleIds.mp hid).2
            exact ⟨n, hn⟩

/-- A load computes what `first` grants, whatever is done between its listings. -/
theorem ensures_loadUserPermissions :
    QuietService tablePrefix first ids (loadUserPermissions tablePrefix userId)
      (TellsGrants tablePrefix first userId) := by
  apply ensures_getTableByName.bind
  rintro _ rfl
  cases htable : resolve tablePrefix first.tables SystemTable.users.name with
  | none =>
      apply Program.ensures_pure
      apply tellsGrants_empty
      rintro table action ⟨hresolved, -⟩
      have husers := hresolved .users
      rw [htable] at husers
      contradiction
  | some usersTable =>
      refine (ensures_quietCall ?_).bind ?_
      · trivial
      intro user _
      apply ensures_loadUserRoles
      intro table action
      constructor
      · rintro ⟨hresolved, hgranted⟩
        exact ⟨hresolved .userRoles, hresolved .roles, hresolved .tablePermissions, hgranted⟩
      · rintro ⟨huserRoles, hroles, hpermissions, hgranted⟩
        refine ⟨?_, hgranted⟩
        intro system
        cases system with
        | users =>
            rw [htable]
            rfl
        | roles => exact hroles
        | userRoles => exact huserRoles
        | tablePermissions => exact hpermissions

/-- A lookup answers what `first` grants, from the cache or by a load. -/
theorem ensures_getUserPermissions :
    QuietService tablePrefix first ids (getUserPermissions tablePrefix userId)
      (TellsGrants tablePrefix first userId) := by
  refine (ensures_quietCall ?_).bind ?_
  · trivial
  intro cached hcached
  cases cached with
  | some value => exact Program.ensures_pure hcached
  | none => exact ensures_loadUserPermissions

end

/-! ## The guards -/

section

variable {tablePrefix : JsString} {ids : JsString → Prop} {first : World}

theorem ensures_checkPermission {user : RequestUser} {permission : RequiredPermission} :
    QuietService tablePrefix first ids (checkPermission tablePrefix user permission)
      fun _ => Holds tablePrefix first user permission := by
  have hdecide : QuietService tablePrefix first ids (hasPermission tablePrefix user permission)
      fun granted => granted = true → Holds tablePrefix first user permission := by
    unfold hasPermission
    split
    · next hscope =>
        apply Program.ensures_pure
        intro _
        exact Or.inl hscope
    · apply ensures_getUserPermissions.bind
      intro value hvalue
      apply Program.ensures_pure
      intro hallowed
      exact Or.inr ((hvalue permission.table permission.action).mp hallowed)
  apply hdecide.bind
  intro granted hholds
  cases granted with
  | false => exact Program.ensures_throw _ _
  | true => exact Program.ensures_pure (hholds rfl)

theorem ensures_canActivate {handler controller : Option (List RequiredPermission)}
    {user : Option RequestUser} :
    QuietService tablePrefix first ids (canActivate tablePrefix handler controller user)
      fun _ => Admits tablePrefix first ((getAllAndOverride handler controller).getD []) user := by
  unfold canActivate
  cases getAllAndOverride handler controller with
  | none => exact Program.ensures_pure (Or.inl rfl)
  | some required =>
      cases required with
      | nil => exact Program.ensures_pure (Or.inl rfl)
      | cons permission required =>
          cases user with
          | none => exact Program.ensures_throw _ _
          | some caller =>
              dsimp only
              split
              · next hidentified =>
                  apply (Program.Ensures.forM fun permission _ => ensures_checkPermission).bind
                  intro _ hholds
                  exact Program.ensures_pure (Or.inr ⟨caller, rfl, hidentified, hholds⟩)
              · exact Program.ensures_throw _ _

/-- The guard of a controller lets those through whom it would let through in `first`. -/
theorem ensures_authorize {config : Config} {route : Route} {user : AuthenticatedUser} :
    QuietService config.tablePrefix first ids (route.authorize config (some user))
      fun _ => route.Admits config first user := by
  have hroles : ∀ route : Route, route.roles = some [js "admin"] →
      QuietService config.tablePrefix first ids
        (require (rolesGuardCanActivate route.roles (some user.roles)))
        fun _ => js "admin" ∈ user.roles := by
    intro route hrequired
    rw [hrequired, require]
    split
    · next hadmitted =>
        exact Program.ensures_pure ((rolesGuardCanActivate_singleton _ _).mp hadmitted)
    · exact Program.ensures_throw _ _
  cases route with
  | admin route =>
      apply ensures_canActivate.bind
      intro granted hadmits
      rw [getAllAndOverride, Option.or_none] at hadmits
      cases granted with
      | false => exact Program.ensures_throw _ _
      | true => exact Program.ensures_pure hadmits
  | createUser dto => exact hroles (.createUser dto) rfl
  | updateStatus id isActive => exact hroles (.updateStatus id isActive) rfl
  | listTables => exact hroles .listTables rfl
  | bootstrapAdmin dto bootstrapToken => exact Program.ensures_pure trivial

/-- The guard of the data API lets those through whom it would let through in `first`. -/
theorem ensures_admitData {config : Config} {table : JsString} {route : DataRoute}
    {user : AuthenticatedUser} :
    QuietService config.tablePrefix first ids
      (admitData config (dataRequest (some user) table route))
      fun _ => AdmitsData config first table route.action user := by
  unfold admitData dataRequest
  dsimp only [Option.getD_some]
  have hnamed := not_named_iff config table
  by_cases hname : isValidTableName config.unicode table = true ∧ table ∉ Data.systemTables
  · rw [if_neg (mt hnamed.mp (not_not.mpr hname)), methodAction_method]
    show QuietService config.tablePrefix first ids (if (JsValue.number user.userId).truthy then
      checkPermission config.tablePrefix (requestUser user) ⟨table, route.action⟩
      else throw accessDenied) _
    split
    · next hidentified =>
        apply ensures_checkPermission.mono
        intro _ hholds
        exact ⟨hname.1, hname.2, hidentified, hholds⟩
    · exact Program.ensures_throw _ _
  · rw [if_pos (hnamed.mpr hname)]
    exact Program.ensures_throw _ _

end

/-! ## Users -/

section

variable {tablePrefix : JsString} {ids : JsString → Prop} {first : World}

theorem uses_findOne {tableId filter : JsString} :
    (findOne tableId filter).Uses fun op => WritesTo ids (.inl op) :=
  (Program.uses_call trivial).bind fun _ => trivial

theorem uses_findBySubject {usersTableId : JsString} {claims : NormalizedIdentityClaims} :
    (findBySubject usersTableId claims).Uses fun op => WritesTo ids (.inl op) :=
  (Program.uses_ofExcept _).bind fun _ => uses_findOne

theorem uses_findByEmail {usersTableId : JsString} {claims : NormalizedIdentityClaims} :
    (findByEmail usersTableId claims).Uses fun op => WritesTo ids (.inl op) := by
  unfold findByEmail
  split
  · trivial
  · exact (Program.uses_ofExcept _).bind fun _ => uses_findOne

theorem uses_upsertLookedUp {usersTableId : JsString} {claims : NormalizedIdentityClaims}
    {bySubject byEmail : Option NocoRecord} (hid : ids usersTableId) :
    (upsertLookedUp usersTableId claims bySubject byEmail).Uses
      fun op => WritesTo ids (.inl op) := by
  have hupdate : ∀ {recordId : JsNumber} {data : Payload}, (do
      let updated ← update usersTableId recordId data
      Program.ofExcept (toResolvedIdentity updated claims.roles)).Uses
        fun op => WritesTo ids (.inl op) := by
    intro recordId data
    refine (Program.uses_call ?_).bind fun _ => trivial
    exact hid
  unfold upsertLookedUp
  apply (Program.uses_ofExcept _).bind
  intro conflicts
  split
  · trivial
  · cases bySubject with
    | some bySubject =>
        apply (Program.uses_ofExcept _).bind
        intro existingId
        exact hupdate
    | none =>
        cases byEmail with
        | some byEmail =>
            apply (Program.uses_ofExcept _).bind
            intro existingId
            exact hupdate
        | none =>
            refine (Program.uses_call ?_).bind fun _ => trivial
            exact hid

/-- The rule for what is done with the users table. -/
theorem ensures_usersTable {α : Type} {rest : TableMeta → Service α} {post : α → Prop}
    (hrest : ∀ usersTable : TableMeta, IsUsersTable tablePrefix first.tables usersTable.id →
      QuietService tablePrefix first ids (rest usersTable) post) :
    QuietService tablePrefix first ids
      (do
        let usersTable ← getTableByName tablePrefix SystemTable.users.name
        let usersTable ← assertTableRef usersTable
        rest usersTable)
      post := by
  apply ensures_getTableByName.bind
  rintro _ rfl
  cases hfound : resolve tablePrefix first.tables SystemTable.users.name with
  | none => exact Program.ensures_throw _ _
  | some found => exact hrest found ⟨found, hfound, rfl⟩

/-- `upsertIdentityUser` writes to the users table at most. -/
theorem ensures_upsertIdentityUser {claims : NormalizedIdentityClaims}
    (husers : ∀ id, IsUsersTable tablePrefix first.tables id → ids id) :
    QuietService tablePrefix first ids (upsertIdentityUser tablePrefix claims) fun _ => True := by
  apply ensures_usersTable
  intro usersTable htable
  apply ensures_of_writesTo
  apply uses_findBySubject.bind
  intro bySubject
  apply uses_findByEmail.bind
  intro byEmail
  exact uses_upsertLookedUp (husers usersTable.id htable)

theorem ensures_setUserStatus {userId : JsNumber} {isActive : Bool}
    (husers : ∀ id, IsUsersTable tablePrefix first.tables id → ids id) :
    QuietService tablePrefix first ids (setUserStatus tablePrefix userId isActive)
      fun _ => True := by
  apply ensures_usersTable
  intro usersTable htable
  apply ensures_of_writesTo
  refine (Program.uses_call ?_).bind fun _ => trivial
  exact husers usersTable.id htable

/-- `validate` writes to the users table at most. -/
theorem ensures_validate {provider : AuthProvider} {payload : TokenPayload}
    (husers : ∀ id, IsUsersTable tablePrefix first.tables id → ids id) :
    QuietService tablePrefix first ids (validate tablePrefix provider payload) fun _ => True := by
  apply (Program.ensures_of_uses (Program.uses_ofExcept _)).bind
  intro claims _
  have hresolve : QuietService tablePrefix first ids (resolveUser tablePrefix provider claims)
      fun _ => True := by
    cases provider with
    | localNocodb =>
        show QuietService tablePrefix first ids (resolveLocal tablePrefix claims) _
        apply ensures_of_writesTo
        unfold resolveLocal
        dsimp only
        split
        · apply uses_getTableByName.bind
          intro usersTable
          cases usersTable with
          | none => trivial
          | some usersTable => exact (Program.uses_call trivial).bind fun _ => trivial
        · trivial
    | externalJwt =>
        apply (ensures_upsertIdentityUser husers).bind
        intro identity _
        exact Program.ensures_pure trivial
  apply hresolve.bind
  intro resolution _
  exact Program.ensures_of_uses (Program.uses_ofExcept _)

/-- A request that is not public has a user after `JwtAuthGuard`. -/
theorem ensures_authenticate {config : Config} {token : Option TokenPayload}
    (husers : ∀ id, IsUsersTable config.tablePrefix first.tables id → ids id) :
    QuietService config.tablePrefix first ids (authenticate config false token)
      fun user => user.isSome = true := by
  cases token with
  | none => exact Program.ensures_throw _ _
  | some payload =>
      apply (ensures_validate husers).bind
      intro user _
      exact Program.ensures_pure rfl

end

/-! ## The methods -/

section

variable {ids : JsString → Prop} {first : World} {config : Config}

/-- The method of a route that does not write to the policy. -/
theorem ensures_handle_quiet {route : Route} (hquiet : route.changesPolicy = false)
    (husers : ∀ id, IsUsersTable config.tablePrefix first.tables id → ids id) :
    Quietly config.tablePrefix first ids (route.handle config) fun _ => True := by
  have hreads : ∀ {α : Type} {program : Paging α}, program.Uses (WritesTo ids) →
      Quietly config.tablePrefix first ids program fun _ => True := by
    intro α program huses
    exact Program.ensures_of_uses (huses.mono fun _ hop => Or.inl hop)
  cases route with
  | admin route =>
      cases route with
      | getAllRoles pageOptionsDto => exact hreads uses_listPage
      | getRolePermissions roleId pageOptionsDto => exact hreads uses_listPage
      | getUserRoles userId pageOptionsDto => exact hreads uses_getUserRoles
      | _ => contradiction
  | listTables =>
      apply hreads
      apply (Program.uses_call trivial).lift.bind
      intro tables
      trivial
  | updateStatus id isActive => exact (ensures_setUserStatus husers).lift
  | createUser dto => contradiction
  | bootstrapAdmin dto bootstrapToken => contradiction

/-- The lookup finds the table that the name resolves to. -/
theorem ensures_lookupTable {tablePrefix table : JsString}
    {getTableMetadata : JsString → Except Exception (List NocoFieldMeta)} {now later : Nat}
    {tables : TableCache} (hcache : CacheOf tablePrefix first.tables tables) :
    QuietService tablePrefix first ids
      (lookupTable tablePrefix getTableMetadata now later tables table)
      fun result => ∀ info, result.1 = .ok info →
        ResolvesTo tablePrefix first.tables table info.id := by
  unfold lookupTable
  cases hcached : cachedInfo tables now table with
  | some cached =>
      have hget : tables.get table = some cached := (Option.filter_eq_some_iff.mp hcached).1
      apply Program.ensures_pure
      rintro info ⟨⟩
      exact hcache.resolves table cached hget
  | none =>
      have hlist : QuietService tablePrefix first ids
          (attempt (Program.call Op.listTables : Service (List TableMeta)))
          fun listTables => ∀ listed, listTables = .ok listed → listed = first.tables := by
        apply Program.Ensures.tryCatch
        · refine (ensures_quietCall ?_).bind ?_
          · trivial
          intro listed hlisted
          apply Program.ensures_pure
          rintro other ⟨⟩
          exact hlisted
        · intro exception
          apply Program.ensures_pure
          intro listed hlisted
          contradiction
      apply hlist.bind
      intro listTables hlisted
      apply Program.ensures_pure
      exact (getTable_resolves hcache.resolves hlisted getTableMetadata now later table).1

end

end Http
end NocoMiddleware
