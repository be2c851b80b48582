import NocoMiddleware.Permissions.Grants

/-!
# The semantics of permission checks

`getUserPermissions` computes exactly the grants of the system tables when it does
not answer from the cache.  Each lookup of the method narrows the grants to the
rows it has read; the lemmas follow the method from its last lookup to its first.
-/

namespace NocoMiddleware
namespace Permissions

open NocoMiddleware.Js NocoMiddleware.Filter NocoMiddleware.Tables NocoMiddleware.Store
open NocoMiddleware.Foundation

section

variable {faults : Bool} {tablePrefix : JsString}

/-- What a load from a world may end with.  A result allows exactly the given
actions, and is cached or leaves everything as it is; an exception leaves
everything as it is, and comes from a failed request unless there is nothing to
allow. -/
def Loads (faults : Bool) (world : World) (userId : JsNumber)
    (grants : JsString → CrudAction → Prop) : Except Exception UserPermissions → World → Prop
  | .ok value, world' =>
      (∀ table action, value.allows table action = true ↔ grants table action) ∧
        world'.tables = world.tables ∧ world'.rows = world.rows ∧
        world.clock ≤ world'.clock ∧
        (world'.cache = world.cache ∨
          world'.cache = world.cache.cachePermissions world'.clock userId value)
  | .error _, world' =>
      Unchanged world world' ∧ (faults = true ∨ ∀ table action, ¬ grants table action)

theorem Loads.of_unchanged {world later : World} (h : Unchanged world later)
    {userId : JsNumber} {grants : JsString → CrudAction → Prop}
    {result : Except Exception UserPermissions} {world' : World}
    (hloads : Loads faults later userId grants result world') :
    Loads faults world userId grants result world' := by
  cases result with
  | error exception => exact ⟨h.trans hloads.1, hloads.2⟩
  | ok value =>
      obtain ⟨hallows, htables, hrows, hclock, hcache⟩ := hloads
      rw [h.tables] at htables
      rw [h.rows] at hrows
      rw [h.cache] at hcache
      exact ⟨hallows, htables, hrows, h.clock.trans hclock, hcache⟩

/-- Empty permissions are right when nothing is granted. -/
theorem Loads.of_empty {world world' : World} {userId : JsNumber}
    {grants : JsString → CrudAction → Prop} (username : JsValue)
    (hnone : ∀ table action, ¬ grants table action) (h : Unchanged world world') :
    Loads faults world userId grants (.ok (createEmptyPermissions userId username)) world' := by
  refine ⟨fun table action => ?_, h.tables, h.rows, h.clock, Or.inl h.cache⟩
  exact iff_of_false (by simp [UserPermissions.allows, createEmptyPermissions])
    (hnone table action)

/-- A computed result may be cached. -/
theorem Loads.of_cached {world world' : World} {userId : JsNumber} {value : UserPermissions}
    {grants : JsString → CrudAction → Prop}
    (hallows : ∀ table action, value.allows table action = true ↔ grants table action)
    (h : Unchanged world world') :
    Loads faults world userId grants (.ok value)
      (world'.setCache (world'.cache.cachePermissions world'.clock userId value)) := by
  refine ⟨hallows, ?_, ?_, ?_, Or.inr ?_⟩
  · rw [World.tables_setCache, h.tables]
  · rw [World.rows_setCache, h.rows]
  · rw [World.clock_setCache]
    exact h.clock
  · rw [World.cache_setCache, World.clock_setCache, h.cache]

theorem Loads.congr {world : World} {userId : JsNumber}
    {grants other : JsString → CrudAction → Prop}
    (h : ∀ table action, grants table action ↔ other table action)
    {result : Except Exception UserPermissions} {world' : World}
    (hloads : Loads faults world userId grants result world') :
    Loads faults world userId other result world' := by
  have heq : grants = other := funext fun table => funext fun action => propext (h table action)
  rwa [← heq]

/-- The grants of the permission rows of given roles. -/
def RoleGrants (tablePrefix : JsString) (world : World) (roles : Nat → Prop)
    (table : JsString) (action : CrudAction) : Prop :=
  (resolve tablePrefix world.tables SystemTable.tablePermissions.name).isSome = true ∧
    ∃ roleId, roles roleId ∧
      ∃ row ∈ systemRows tablePrefix world .tablePermissions, Permits row roleId table action

/-- The records of the permission rows of active roles, read as the aggregation
reads them. -/
theorem usable_record_iff {rows : List Row} {existingRoleIds activeRoleIds : List JsNumber}
    (hactive : ∀ id ∈ activeRoleIds, id ∈ existingRoleIds ∧ ∃ n, id = .ofNat n)
    (table : JsString) (action : CrudAction) :
    (∃ perm ∈ (rows.filter fun row => row.cell (fieldTitle (js "role_id")) ∈
          activeRoleIds.map JsValue.number).map (flattenRecord none),
        perm.get (js "table_name") = .string table ∧ table ≠ [] ∧
          (perm.get (js "role_id")).toNumber ∈ existingRoleIds ∧
          (perm.get action.flag).truthy = true) ↔
      ∃ roleId, JsNumber.ofNat roleId ∈ activeRoleIds ∧
        ∃ row ∈ rows, Permits row roleId table action := by
  have hfield : fieldTitle (js "role_id") = js "role_id" := by decide
  have hrole : ∀ row : Row, (flattenRecord none row).get (js "role_id") =
      row.cell (js "role_id") := fun row => get_flattenRecord (by decide) (by decide)
  have htable : ∀ row : Row, (flattenRecord none row).get (js "table_name") =
      row.cell (js "table_name") := fun row => get_flattenRecord (by decide) (by decide)
  have hflag : ∀ row : Row, (flattenRecord none row).get action.flag = row.cell action.flag :=
    fun row => get_flattenRecord (by cases action <;> decide) (by cases action <;> decide)
  constructor
  · rintro ⟨perm, hperm, hname, hne, -, htruthy⟩
    obtain ⟨row, hrow, rfl⟩ := List.mem_map.mp hperm
    obtain ⟨hmem, hselected⟩ := List.mem_filter.mp hrow
    rw [decide_eq_true_eq, hfield] at hselected
    obtain ⟨id, hid, hcell⟩ := List.mem_map.mp hselected
    obtain ⟨roleId, rfl⟩ := (hactive id hid).2
    rw [htable] at hname
    rw [hflag] at htruthy
    exact ⟨roleId, hid, row, hmem, hcell.symm, hname, hne, htruthy⟩
  · rintro ⟨roleId, hid, row, hmem, hcell, hname, hne, htruthy⟩
    refine ⟨flattenRecord none row, List.mem_map.mpr ⟨row, ?_, rfl⟩, ?_, hne, ?_, ?_⟩
    · rw [List.mem_filter, decide_eq_true_eq, hfield, hcell]
      exact ⟨hmem, List.mem_map.mpr ⟨_, hid, rfl⟩⟩
    · rw [htable, hname]
    · rw [hrole, hcell]
      exact (hactive _ hid).1
    · rw [hflag, htruthy]

/-- `loadTablePermissions` allows what the permission rows of the active roles
grant. -/
theorem wp_loadTablePermissions {world : World} {userId : JsNumber} {username : JsValue}
    {roleNames : List JsValue} {existingRoleIds activeRoleIds : List JsNumber}
    (hne : activeRoleIds ≠ [])
    (hactive : ∀ id ∈ activeRoleIds, id ∈ existingRoleIds ∧ ∃ n, id = .ofNat n) :
    wp (nocodb faults).contract
      (loadTablePermissions tablePrefix userId username roleNames existingRoleIds activeRoleIds)
      (Loads faults world userId
        (RoleGrants tablePrefix world fun roleId => .ofNat roleId ∈ activeRoleIds)) world := by
  rw [loadTablePermissions, wp_bind]
  refine wp_getTableByName (fun hfaults _ h => ⟨h, Or.inl hfaults⟩) fun w₁ h₁ => ?_
  rw [onOk_ok]
  cases htable : resolve tablePrefix world.tables SystemTable.tablePermissions.name with
  | none =>
      refine Loads.of_empty username (fun table action hgrants => ?_) h₁
      simp [RoleGrants, htable] at hgrants
  | some permissionsTable =>
      obtain ⟨filter, hfilter⟩ := filterIn_naturals
        (by decide : filterFieldPattern.test (js "role_id") = true) hne
        fun id hid => (hactive id hid).2
      simp only [hfilter, wp_bind, wp_ofExcept, onOk_ok]
      refine wp_listAll (selectRows_filterIn hfilter _)
        (fun hfaults _ h => ⟨h₁.trans h, Or.inl hfaults⟩) fun w₂ h₂ => ?_
      rw [onOk_ok, wp_bind]
      refine wp_call_synchronous rfl fun _ w₃ h₃ => ?_
      have h := (h₁.trans h₂).trans h₃
      simp only [answer, onOk_ok, wp_pure]
      refine Loads.of_cached (fun table action => ?_) h
      rw [allows_iff, mapAllows_aggregatePermissions, h₁.rows, usable_record_iff hactive]
      simp [RoleGrants, systemRows, htable]

/-- `loadRoles` allows what the permission rows of those given roles that still
exist grant. -/
theorem wp_loadRoles {world : World} {userId : JsNumber} {username : JsValue}
    {roleIds : List JsNumber} (hne : roleIds ≠ [])
    (hnaturals : ∀ id ∈ roleIds, ∃ n, id = .ofNat n) :
    wp (nocodb faults).contract (loadRoles tablePrefix userId username roleIds)
      (Loads faults world userId fun table action =>
        (resolve tablePrefix world.tables SystemTable.roles.name).isSome = true ∧
          RoleGrants tablePrefix world (fun roleId => .ofNat roleId ∈ roleIds ∧
            ∃ row ∈ systemRows tablePrefix world .roles, row.id = roleId) table action)
      world := by
  rw [loadRoles, wp_bind]
  refine wp_getTableByName (fun hfaults _ h => ⟨h, Or.inl hfaults⟩) fun w₁ h₁ => ?_
  rw [onOk_ok]
  cases htable : resolve tablePrefix world.tables SystemTable.roles.name with
  | none =>
      refine Loads.of_empty username (fun table action hgrants => ?_) h₁
      simp at hgrants
  | some rolesTable =>
      obtain ⟨filter, hfilter⟩ := filterIn_naturals
        (by decide : filterFieldPattern.test (js "id") = true) hne hnaturals
      simp only [hfilter, wp_bind, wp_ofExcept, onOk_ok]
      refine wp_listAll (selectRows_filterIn hfilter _)
        (fun hfaults _ h => ⟨h₁.trans h, Or.inl hfaults⟩) fun w₂ h₂ => ?_
      have h := h₁.trans h₂
      rw [onOk_ok, h₁.rows]
      set existing := (((world.rows rolesTable.id).rows.filter fun row =>
        row.cell (fieldTitle (js "id")) ∈ roleIds.map JsValue.number).map
          (flattenRecord none)).map fun r : NocoRecord => (r.get (js "id")).toNumber
        with hexisting
      -- the ids read back are the assigned ids that a row of the table carries
      have hmem : ∀ roleId, JsNumber.ofNat roleId ∈
          (roleIds.filter fun id => existing.contains id) ↔
            JsNumber.ofNat roleId ∈ roleIds ∧
              ∃ row ∈ (world.rows rolesTable.id).rows, row.id = roleId := by
        intro roleId
        rw [List.mem_filter, List.contains_iff_mem, hexisting]
        simp only [List.map_map, List.mem_map, List.mem_filter, decide_eq_true_eq,
          Function.comp_apply, get_id_flattenRecord, JsValue.toNumber_number, JsNumber.ofNat_inj]
        constructor
        · rintro ⟨hid, row, ⟨hrow, -⟩, rfl⟩
          exact ⟨hid, row, hrow, rfl⟩
        · rintro ⟨hid, row, hrow, rfl⟩
          refine ⟨hid, row, ⟨hrow, .ofNat row.id, hid, ?_⟩, rfl⟩
          rfl
      by_cases hactive : (roleIds.filter fun id => existing.contains id) = []
      · rw [if_pos hactive]
        refine Loads.of_empty username (fun table action hgrants => ?_) h
        obtain ⟨-, -, roleId, ⟨hid, hrow⟩, -⟩ := hgrants
        have hin := (hmem roleId).mpr ⟨hid, by simpa [systemRows, htable] using hrow⟩
        rw [hactive] at hin
        simp at hin
      · rw [if_neg hactive]
        have hnatural : ∀ id ∈ (roleIds.filter fun id => existing.contains id),
            id ∈ existing ∧ ∃ n, id = .ofNat n := by
          intro id hid
          obtain ⟨hassigned, hexists⟩ := List.mem_filter.mp hid
          exact ⟨List.contains_iff_mem.mp hexists, hnaturals id hassigned⟩
        refine wp_mono (wp_loadTablePermissions hactive hnatural) fun result world' hloads => ?_
        refine Loads.of_unchanged h (Loads.congr (fun table action => ?_) hloads)
        simp only [hmem, RoleGrants, systemRows, h.tables, h.rows, htable, Option.isSome_some,
          true_and]

/-- The cells of a row are JSON values, so no row is of a user that is not a finite
number. -/
theorem not_assigns_of_error {userId : JsNumber} {exception : Exception}
    (h : filterEq (js "user_id") (.number userId) = .error exception) (row : Row)
    (roleId : Nat) : ¬ Assigns row userId roleId := by
  rintro ⟨hcell, -⟩
  have hfinite : ∃ x, userId = .finite x := by
    have hne : js "user_id" ≠ primaryKeyField := by decide
    rw [Row.cell, if_neg hne] at hcell
    cases hlookup : row.cells.lookup (js "user_id") with
    | none => simp [hlookup] at hcell
    | some scalar =>
        cases scalar <;> simp [hlookup, JsonScalar.toValue] at hcell
        exact ⟨_, hcell.symm⟩
  obtain ⟨x, rfl⟩ := hfinite
  obtain ⟨filter, hfilter⟩ := filterEq_finite
    (by decide : filterFieldPattern.test (js "user_id") = true) x
  rw [hfilter] at h
  contradiction

/-- The role ids read from the assignments of a user. -/
theorem mem_assignedRoleIds_iff {rows : List Row} {userId : JsNumber} {roleId : Nat} :
    JsNumber.ofNat roleId ∈ assignedRoleIds
        ((rows.filter fun row => row.cell (js "user_id") = .number userId).map
          (flattenRecord (some [js "role_id"]))) ↔
      0 < roleId ∧ ∃ row ∈ rows, Assigns row userId roleId := by
  have hrole : ∀ row : Row,
      (flattenRecord (some [js "role_id"]) row).get (js "role_id") = row.cell (js "role_id") :=
    fun row => get_flattenRecord_of_mem (by simp) (by decide) (by decide)
  rw [mem_assignedRoleIds]
  constructor
  · rintro ⟨⟨record, hrecord, hid⟩, n, hpositive, heq⟩
    obtain ⟨row, hrow, rfl⟩ := List.mem_map.mp hrecord
    obtain ⟨hmem, huser⟩ := List.mem_filter.mp hrow
    rw [decide_eq_true_eq] at huser
    rw [hrole] at hid
    rw [JsNumber.ofNat_inj.mp heq]
    rw [JsNumber.ofNat_inj.mp heq] at hid
    exact ⟨hpositive, row, hmem, huser, hid⟩
  · rintro ⟨hpositive, row, hmem, huser, hid⟩
    refine ⟨⟨flattenRecord _ row, List.mem_map.mpr ⟨row, ?_, rfl⟩, ?_⟩, roleId, hpositive, rfl⟩
    · rw [List.mem_filter, decide_eq_true_eq]
      exact ⟨hmem, huser⟩
    · rw [hrole, hid]

/-- `loadUserRoles` allows what the permission rows of the roles that the user holds
grant. -/
theorem wp_loadUserRoles {world : World} {userId : JsNumber} {username : JsValue} :
    wp (nocodb faults).contract (loadUserRoles tablePrefix userId username)
      (Loads faults world userId fun table action =>
        (resolve tablePrefix world.tables SystemTable.userRoles.name).isSome = true ∧
          (resolve tablePrefix world.tables SystemTable.roles.name).isSome = true ∧
          RoleGrants tablePrefix world (HoldsRole tablePrefix world userId) table action)
      world := by
  rw [loadUserRoles, wp_bind]
  refine wp_getTableByName (fun hfaults _ h => ⟨h, Or.inl hfaults⟩) fun w₁ h₁ => ?_
  rw [onOk_ok]
  cases htable : resolve tablePrefix world.tables SystemTable.userRoles.name with
  | none =>
      refine Loads.of_empty username (fun table action hgrants => ?_) h₁
      simp at hgrants
  | some userRolesTable =>
      simp only [wp_bind, wp_ofExcept]
      cases hfilter : filterEq (js "user_id") (.number userId) with
      | error exception =>
          refine ⟨h₁, Or.inr fun table action hgrants => ?_⟩
          obtain ⟨-, -, -, roleId, ⟨-, ⟨row, -, hrow⟩, -⟩, -⟩ := hgrants
          exact not_assigns_of_error hfilter row roleId hrow
      | ok filter =>
          rw [onOk_ok, wp_bind]
          refine wp_listAll (selectRows_filterEq hfilter (by decide) _)
            (fun hfaults _ h => ⟨h₁.trans h, Or.inl hfaults⟩) fun w₂ h₂ => ?_
          have h := h₁.trans h₂
          rw [onOk_ok, h₁.rows]
          set roleIds := assignedRoleIds
            (((world.rows userRolesTable.id).rows.filter fun row =>
              row.cell (js "user_id") = .number userId).map
                (flattenRecord (some [js "role_id"]))) with hroleIds
          have hmem : ∀ roleId, JsNumber.ofNat roleId ∈ roleIds ↔ 0 < roleId ∧
              ∃ row ∈ (world.rows userRolesTable.id).rows, Assigns row userId roleId :=
            fun roleId => mem_assignedRoleIds_iff
          -- without roles nothing is loaded, and nothing is granted
          by_cases hempty : roleIds = []
          · rw [if_pos hempty]
            refine Loads.of_empty username (fun table action hgrants => ?_) h
            obtain ⟨-, -, -, roleId, ⟨hpositive, hassigned, -⟩, -⟩ := hgrants
            have hin := (hmem roleId).mpr
              ⟨hpositive, by simpa only [systemRows, htable] using hassigned⟩
            rw [hempty] at hin
            simp at hin
          · rw [if_neg hempty]
            have hnaturals : ∀ id ∈ roleIds, ∃ n, id = .ofNat n := by
              intro id hid
              obtain ⟨n, -, hn⟩ := (mem_assignedRoleIds.mp hid).2
              exact ⟨n, hn⟩
            refine wp_mono (wp_loadRoles hempty hnaturals) fun result world' hloads => ?_
            refine Loads.of_unchanged h (Loads.congr (fun table action => ?_) hloads)
            simp only [hmem, RoleGrants, HoldsRole, systemRows, h.tables, h.rows, htable,
              Option.isSome_some, true_and, and_assoc]

/-- A load that does not find the user in the cache computes the grants of the
system tables. -/
theorem wp_loadUserPermissions {world : World} {userId : JsNumber} :
    wp (nocodb faults).contract (loadUserPermissions tablePrefix userId)
      (Loads faults world userId (Grants tablePrefix world userId)) world := by
  rw [loadUserPermissions, wp_bind]
  refine wp_getTableByName (fun hfaults _ h => ⟨h, Or.inl hfaults⟩) fun w₁ h₁ => ?_
  rw [onOk_ok]
  cases htable : resolve tablePrefix world.tables SystemTable.users.name with
  | none =>
      refine Loads.of_empty _ (fun table action hgrants => ?_) h₁
      have husers := hgrants.1 .users
      rw [htable] at husers
      contradiction
  | some usersTable =>
      simp only [wp_bind]
      refine wp_read (fun hfaults _ h => ⟨h₁.trans h, Or.inl hfaults⟩) fun user w₂ h₂ => ?_
      have h := h₁.trans h₂
      rw [onOk_ok]
      refine wp_mono wp_loadUserRoles fun result world' hloads => ?_
      refine Loads.of_unchanged h (Loads.congr (fun table action => ?_) hloads)
      have hall : (∀ system : SystemTable,
          (resolve tablePrefix world.tables system.name).isSome = true) ↔
            (resolve tablePrefix world.tables SystemTable.userRoles.name).isSome = true ∧
            (resolve tablePrefix world.tables SystemTable.roles.name).isSome = true ∧
            (resolve tablePrefix world.tables SystemTable.tablePermissions.name).isSome =
              true := by
        constructor
        · exact fun h => ⟨h .userRoles, h .roles, h .tablePermissions⟩
        · rintro ⟨huserRoles, hroles, hpermissions⟩ (_ | _ | _ | _)
          · rw [htable]
            rfl
          · exact hroles
          · exact huserRoles
          · exact hpermissions
      simp only [Grants, hall, RoleGrants, HoldsRole, systemRows, h.tables, h.rows, and_assoc]

/-- What `getUserPermissions` may end with: the live entry of the cache, or a
load. -/
theorem wp_getUserPermissions {world : World} {userId : JsNumber} :
    wp (nocodb faults).contract (getUserPermissions tablePrefix userId)
      (fun result world' =>
        (∃ value, world.cache.live world.clock userId = some value ∧ result = .ok value ∧
            Unchanged world world') ∨
          Loads faults world userId (Grants tablePrefix world userId) result world')
      world := by
  rw [getUserPermissions, wp_bind]
  refine wp_call_synchronous rfl fun _ w₁ h₁ => ?_
  simp only [answer, onOk_ok, h₁.cache]
  cases hlive : world.cache.live w₁.clock userId with
  | some value =>
      exact Or.inl ⟨value, PermissionsCache.live_of_le h₁.clock hlive, rfl, h₁⟩
  | none =>
      refine wp_mono wp_loadUserPermissions fun result world' hloads => Or.inr ?_
      refine Loads.of_unchanged h₁ (Loads.congr (fun table action => ?_) hloads)
      simp only [Grants, HoldsRole, systemRows, h₁.tables, h₁.rows]

theorem SameContent.refl (world : World) : SameContent tablePrefix world world :=
  ⟨rfl, fun _ => Iff.rfl, fun _ => Iff.rfl, fun _ => Iff.rfl⟩

/-- With an empty cache, `canUserPerformAction` is true exactly when the system
tables grant the action. -/
theorem wp_canUserPerformAction {world : World} (hempty : world.cache = .empty)
    {userId : JsNumber} {table : JsString} {action : CrudAction} :
    wp (nocodb false).contract (canUserPerformAction tablePrefix userId table action)
      (fun result _ => result = .ok true ↔ Grants tablePrefix world userId table action)
      world := by
  rw [canUserPerformAction, wp_bind]
  refine wp_mono wp_getUserPermissions fun result world' hresult => ?_
  have hloads : Loads false world userId (Grants tablePrefix world userId) result world' := by
    rcases hresult with ⟨value, hlive, -⟩ | hloads
    · rw [hempty, PermissionsCache.live_empty] at hlive
      contradiction
    · exact hloads
  cases result with
  | error exception =>
      -- nothing fails here, so an exception means that nothing is granted
      rcases hloads.2 with hfaults | hnone
      · contradiction
      · exact iff_of_false (by simp) (hnone table action)
  | ok value =>
      rw [onOk_ok, wp_pure, Except.ok.injEq]
      exact hloads.1 table action

/-- Permission checks are exact: from an empty cache a check has an execution, every
execution answers what the system tables grant, and tables with the same rows in
another order or number are answered alike. -/
theorem canUserPerformAction_exact (tablePrefix : JsString) (world : World)
    (hempty : world.cache = .empty) (userId : JsNumber) (table : JsString)
    (action : CrudAction) :
    (∃ result final, Exec (nocodb false).contract
        (canUserPerformAction tablePrefix userId table action) world result final) ∧
      (∀ result final, Exec (nocodb false).contract
          (canUserPerformAction tablePrefix userId table action) world result final →
        (result = .ok true ↔ Grants tablePrefix world userId table action)) ∧
      ∀ other result final, SameContent tablePrefix world other → other.cache = .empty →
        Exec (nocodb false).contract
          (canUserPerformAction tablePrefix userId table action) other result final →
        (result = .ok true ↔ Grants tablePrefix world userId table action) := by
  have hexact : ∀ other result final, SameContent tablePrefix world other →
      other.cache = .empty → Exec (nocodb false).contract
        (canUserPerformAction tablePrefix userId table action) other result final →
      (result = .ok true ↔ Grants tablePrefix world userId table action) := by
    intro other result final hsame hcache hexec
    rw [hsame.grants_iff]
    exact wp_sound (wp_canUserPerformAction hcache) hexec
  refine ⟨exists_exec (nocodb_total false) _ world, fun result final hexec => ?_, hexact⟩
  exact hexact world result final (SameContent.refl world) hempty hexec

/-- A store in which user 7 has role 3, which may read the table `orders`. -/
def readerWorld : World :=
  .holding []
    [(js "user_roles", .ofRows
        [.ofCells 1 [(js "user_id", .number (.ofNat 7)), (js "role_id", .number (.ofNat 3))]]),
      (js "roles", .ofRows [.ofCells 3 [(js "role_name", .string (js "reader"))]]),
      (js "table_permissions", .ofRows
        [.ofCells 1 [(js "role_id", .number (.ofNat 3)),
          (js "table_name", .string (js "orders")), (js "can_read", .boolean true)]])]

theorem canUserPerformAction_exact_reader :
    (∃ result final, Exec (nocodb false).contract
        (canUserPerformAction [] (.ofNat 7) (js "orders") .read) readerWorld result final) ∧
      (∀ result final, Exec (nocodb false).contract
          (canUserPerformAction [] (.ofNat 7) (js "orders") .read) readerWorld result final →
        (result = .ok true ↔ Grants [] readerWorld (.ofNat 7) (js "orders") .read)) ∧
      ∀ other result final, SameContent [] readerWorld other → other.cache = .empty →
        Exec (nocodb false).contract
          (canUserPerformAction [] (.ofNat 7) (js "orders") .read) other result final →
        (result = .ok true ↔ Grants [] readerWorld (.ofNat 7) (js "orders") .read) :=
  canUserPerformAction_exact [] readerWorld rfl (.ofNat 7) (js "orders") .read

end

end Permissions
end NocoMiddleware
