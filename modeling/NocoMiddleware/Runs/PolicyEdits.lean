import NocoMiddleware.Foundation.RolePolicy
import NocoMiddleware.Runs.ErrorPaths
import NocoMiddleware.Runs.PermissionFolds
import NocoMiddleware.Runs.RoleUnions
import NocoMiddleware.Users.UserRolePages

/-!
# The policy that a store holds

`policyOf` reads the rows of the system tables as a role-based policy, and on a well-kept store
the grants are what this policy allows.  Every write of the services is an edit of the policy:
`Simulates` says that a change of the world is a list of edits, and that the store stays well
kept.
-/

namespace NocoMiddleware
namespace Runs

open NocoMiddleware.Js NocoMiddleware.Filter NocoMiddleware.Tables NocoMiddleware.Store
open NocoMiddleware.Permissions NocoMiddleware.Users NocoMiddleware.Auth
open NocoMiddleware.Foundation

/-- Policies over the ids, table names and actions of the code. -/
abbrev AccessPolicy := RolePolicy JsNumber JsNumber JsString CrudAction

/-- Their changes. -/
abbrev AccessEdit := PolicyEdit JsNumber JsNumber JsString CrudAction

/-- The actions that a permission row ticks. -/
def rowRights (row : Row) : Set CrudAction :=
  {action | (row.cell action.flag).truthy = true}

/-- The policy in the rows of the system tables. -/
def policyOf (tablePrefix : JsString) (world : World) : AccessPolicy where
  roles := {role | ∃ row ∈ systemRows tablePrefix world .roles, JsNumber.ofNat row.id = role}
  assigned := {pair | RoleAssigned pair.1 pair.2 (systemRows tablePrefix world .userRoles)}
  rights role table :=
    ((systemRows tablePrefix world .tablePermissions).find?
      fun row => permissionKey row = some (role, table)).map rowRights

/-- The rows of the system tables have the types of their fields and unique keys, and the
system tables are different tables. -/
structure WellKept (unicode : UnicodeClasses) (tablePrefix : JsString) (world : World) : Prop where
  distinct : DistinctTables tablePrefix world.tables
  assignments : UniqueKeys assignmentKey (systemRows tablePrefix world .userRoles)
  permissions : UniqueKeys permissionKey (systemRows tablePrefix world .tablePermissions)
  assigned : ∀ row ∈ systemRows tablePrefix world .userRoles,
    ∃ userId roleId, IsAssignment userId roleId row
  permitted : ∀ row ∈ systemRows tablePrefix world .tablePermissions,
    ∃ roleId name, permissionKey row = some (roleId, name) ∧ isValidTableName unicode name = true

/-- The change of the world is these edits of its policy. -/
structure Simulates (unicode : UnicodeClasses) (tablePrefix : JsString) (world : World)
    (log : List AccessEdit) (world' : World) : Prop where
  tables : world'.tables = world.tables
  kept : WellKept unicode tablePrefix world'
  policy : policyOf tablePrefix world' = (policyOf tablePrefix world).edits log

section

variable {unicode : UnicodeClasses} {tablePrefix : JsString} {world middle world' : World}
  {userId roleId : JsNumber} {row : Row} {name : JsString}

/-! ## Reading the policy -/

theorem mem_roles_policyOf :
    roleId ∈ (policyOf tablePrefix world).roles ↔
      ∃ row ∈ systemRows tablePrefix world .roles, JsNumber.ofNat row.id = roleId := Iff.rfl

theorem mem_assigned_policyOf :
    (userId, roleId) ∈ (policyOf tablePrefix world).assigned ↔
      RoleAssigned userId roleId (systemRows tablePrefix world .userRoles) := Iff.rfl

/-- The rights of a role on a table are those of its row for the table. -/
theorem rights_policyOf
    (hunique : UniqueKeys permissionKey (systemRows tablePrefix world .tablePermissions))
    {actions : Set CrudAction} :
    (policyOf tablePrefix world).rights roleId name = some actions ↔
      ∃ row ∈ systemRows tablePrefix world .tablePermissions,
        permissionKey row = some (roleId, name) ∧ rowRights row = actions := by
  show Option.map _ _ = _ ↔ _
  rw [Option.map_eq_some_iff]
  constructor
  · rintro ⟨row, hfind, hrights⟩
    obtain ⟨hmem, hkey⟩ := of_find hfind
    exact ⟨row, hmem, hkey, hrights⟩
  · rintro ⟨row, hmem, hkey, hrights⟩
    refine ⟨row, find_of_unique hmem hkey ?_, hrights⟩
    intro other hother hsame
    exact hunique _ other hother row hmem hsame hkey

namespace Simulates

/-- A change that leaves the system tables alone is no edit. -/
theorem of_systemRows_eq (h : WellKept unicode tablePrefix world)
    (htables : world'.tables = world.tables)
    (hrows : ∀ table, systemRows tablePrefix world' table = systemRows tablePrefix world table) :
    Simulates unicode tablePrefix world [] world' := by
  refine ⟨htables, ⟨?_, ?_, ?_, ?_, ?_⟩, ?_⟩
  · rw [htables]
    exact h.distinct
  · rw [hrows]
    exact h.assignments
  · rw [hrows]
    exact h.permissions
  · rw [hrows]
    exact h.assigned
  · rw [hrows]
    exact h.permitted
  · show policyOf tablePrefix world' = policyOf tablePrefix world
    simp only [policyOf, hrows]

theorem unchanged (h : WellKept unicode tablePrefix world) (hunchanged : Unchanged world world') :
    Simulates unicode tablePrefix world [] world' :=
  of_systemRows_eq h hunchanged.tables (hunchanged.systemRows_eq tablePrefix)

theorem cleared (h : WellKept unicode tablePrefix world) {cleared : Option JsNumber}
    (hcleared : Cleared cleared world world') : Simulates unicode tablePrefix world [] world' :=
  of_systemRows_eq h hcleared.tables (hcleared.systemRows_eq tablePrefix)

theorem trans {first second : List AccessEdit}
    (hfirst : Simulates unicode tablePrefix world first middle)
    (hsecond : Simulates unicode tablePrefix middle second world') :
    Simulates unicode tablePrefix world (first ++ second) world' where
  tables := hsecond.tables.trans hfirst.tables
  kept := hsecond.kept
  policy := by
    rw [hsecond.policy, hfirst.policy, RolePolicy.edits_append]

theorem thenUnchanged {log : List AccessEdit}
    (h : Simulates unicode tablePrefix world log middle) (hunchanged : Unchanged middle world') :
    Simulates unicode tablePrefix world log world' := by
  have hboth := h.trans (unchanged h.kept hunchanged)
  rwa [List.append_nil] at hboth

theorem thenCleared {log : List AccessEdit} {userId : Option JsNumber}
    (h : Simulates unicode tablePrefix world log middle) (hcleared : Cleared userId middle world') :
    Simulates unicode tablePrefix world log world' := by
  have hboth := h.trans (cleared h.kept hcleared)
  rwa [List.append_nil] at hboth

end Simulates

/-! ## Roles and users -/

/-- A change of one system table keeps the parts of the store that other tables hold. -/
theorem wellKept_of_changed {table : SystemTable} {change : Change}
    (h : WellKept unicode tablePrefix world)
    (hchanged : Changed tablePrefix table change world world')
    (hassignments : table = .userRoles →
      UniqueKeys assignmentKey (systemRows tablePrefix world' .userRoles) ∧
        ∀ row ∈ systemRows tablePrefix world' .userRoles,
          ∃ userId roleId, IsAssignment userId roleId row)
    (hpermissions : table ≠ .tablePermissions) : WellKept unicode tablePrefix world' := by
  have hother : ∀ other, other ≠ table →
      systemRows tablePrefix world' other = systemRows tablePrefix world other :=
    fun other hne => hchanged.systemRows_of_ne h.distinct hne
  have hrights := hother .tablePermissions hpermissions.symm
  refine ⟨?_, ?_, ?_, ?_, ?_⟩
  · rw [hchanged.tables]
    exact h.distinct
  · by_cases htable : table = .userRoles
    · exact (hassignments htable).1
    · rw [hother .userRoles (Ne.symm htable)]
      exact h.assignments
  · rw [hrights]
    exact h.permissions
  · by_cases htable : table = .userRoles
    · exact (hassignments htable).2
    · rw [hother .userRoles (Ne.symm htable)]
      exact h.assigned
  · rw [hrights]
    exact h.permitted

/-- A row of the users is no edit. -/
theorem simulates_user {change : Change} (h : WellKept unicode tablePrefix world)
    (hchanged : Changed tablePrefix .users change world world') :
    Simulates unicode tablePrefix world [] world' := by
  have hother : ∀ other, other ≠ .users →
      systemRows tablePrefix world' other = systemRows tablePrefix world other :=
    fun other hne => hchanged.systemRows_of_ne h.distinct hne
  refine ⟨hchanged.tables, wellKept_of_changed h hchanged (fun htable => by cases htable)
    (by decide), ?_⟩
  show policyOf tablePrefix world' = policyOf tablePrefix world
  simp only [policyOf, hother _ (by decide : SystemTable.roles ≠ .users),
    hother _ (by decide : SystemTable.userRoles ≠ .users),
    hother _ (by decide : SystemTable.tablePermissions ≠ .users)]

/-- A change of the roles changes the roles of the policy. -/
theorem simulates_roles {change : Change} {entry : AccessEdit}
    (h : WellKept unicode tablePrefix world)
    (hchanged : Changed tablePrefix .roles change world world')
    (hroles : (policyOf tablePrefix world').roles = ((policyOf tablePrefix world).edit entry).roles)
    (hassigned : ((policyOf tablePrefix world).edit entry).assigned =
      (policyOf tablePrefix world).assigned)
    (hrights : ((policyOf tablePrefix world).edit entry).rights =
      (policyOf tablePrefix world).rights) :
    Simulates unicode tablePrefix world [entry] world' := by
  have hother : ∀ other, other ≠ .roles →
      systemRows tablePrefix world' other = systemRows tablePrefix world other :=
    fun other hne => hchanged.systemRows_of_ne h.distinct hne
  refine ⟨hchanged.tables, wellKept_of_changed h hchanged (fun htable => by cases htable)
    (by decide), ?_⟩
  apply RolePolicy.ext
  · exact hroles
  · rw [RolePolicy.edits_cons, RolePolicy.edits_nil, hassigned]
    simp only [policyOf, hother _ (by decide : SystemTable.userRoles ≠ .roles)]
  · rw [RolePolicy.edits_cons, RolePolicy.edits_nil, hrights]
    simp only [policyOf, hother _ (by decide : SystemTable.tablePermissions ≠ .roles)]

/-- A new role is added. -/
theorem simulates_role_inserted (h : WellKept unicode tablePrefix world)
    (hchanged : Changed tablePrefix .roles (.insert row) world world') :
    JsNumber.ofNat row.id ∉ (policyOf tablePrefix world).roles ∧
      Simulates unicode tablePrefix world [.addRole (.ofNat row.id)] world' := by
  refine ⟨?_, simulates_roles h hchanged ?_ rfl rfl⟩
  · rintro ⟨other, hother, hid⟩
    exact hchanged.id_ne_of_insert hother (JsNumber.ofNat_inj.mp hid)
  · obtain ⟨before, after, hbefore, hafter, hfresh, rfl⟩ := hchanged.applies
    apply Set.ext
    intro role
    show _ ↔ role ∈ insert _ _
    rw [Set.mem_insert_iff, mem_roles_policyOf, mem_roles_policyOf, hbefore, hafter,
      Table.rows_insert]
    simp only [List.mem_append, List.mem_singleton, or_and_right, exists_or, exists_eq_left]
    rw [or_comm, eq_comm]

/-- A deleted role is dropped. -/
theorem simulates_role_removed (h : WellKept unicode tablePrefix world)
    (hchanged : Changed tablePrefix .roles (.remove row) world world') :
    Simulates unicode tablePrefix world [.dropRole (.ofNat row.id)] world' := by
  apply simulates_roles h hchanged _ rfl rfl
  obtain ⟨before, after, hbefore, hafter, hrow, rfl⟩ := hchanged.applies
  apply Set.ext
  intro role
  show _ ↔ role ∈ _ \ {_}
  rw [Set.mem_sdiff, Set.mem_singleton_iff, mem_roles_policyOf, mem_roles_policyOf, hbefore, hafter]
  constructor
  · rintro ⟨other, hother, rfl⟩
    obtain ⟨hmem, hid⟩ := Table.mem_delete.mp hother
    exact ⟨⟨other, hmem, rfl⟩, fun heq => hid (JsNumber.ofNat_inj.mp heq)⟩
  · rintro ⟨⟨other, hother, rfl⟩, hne⟩
    refine ⟨other, Table.mem_delete.mpr ⟨hother, fun hid => hne ?_⟩, rfl⟩
    rw [hid]

/-! ## Assignments -/

/-- A change of the assignments changes the assignments of the policy. -/
theorem simulates_assignments {change : Change} {entry : AccessEdit}
    (h : WellKept unicode tablePrefix world)
    (hchanged : Changed tablePrefix .userRoles change world world')
    (hkept : UniqueKeys assignmentKey (systemRows tablePrefix world' .userRoles) ∧
        ∀ row ∈ systemRows tablePrefix world' .userRoles,
          ∃ userId roleId, IsAssignment userId roleId row)
    (hassigned : (policyOf tablePrefix world').assigned =
      ((policyOf tablePrefix world).edit entry).assigned)
    (hroles : ((policyOf tablePrefix world).edit entry).roles =
      (policyOf tablePrefix world).roles)
    (hrights : ((policyOf tablePrefix world).edit entry).rights =
      (policyOf tablePrefix world).rights) :
    Simulates unicode tablePrefix world [entry] world' := by
  have hother : ∀ other, other ≠ .userRoles →
      systemRows tablePrefix world' other = systemRows tablePrefix world other :=
    fun other hne => hchanged.systemRows_of_ne h.distinct hne
  refine ⟨hchanged.tables, wellKept_of_changed h hchanged (fun _ => hkept) (by decide), ?_⟩
  apply RolePolicy.ext
  · rw [RolePolicy.edits_cons, RolePolicy.edits_nil, hroles]
    simp only [policyOf, hother _ (by decide : SystemTable.roles ≠ .userRoles)]
  · exact hassigned
  · rw [RolePolicy.edits_cons, RolePolicy.edits_nil, hrights]
    simp only [policyOf, hother _ (by decide : SystemTable.tablePermissions ≠ .userRoles)]

/-- A new assignment of a role that the user does not have. -/
theorem simulates_assignment_inserted (h : WellKept unicode tablePrefix world)
    (hassignment : IsAssignment userId roleId row)
    (habsent : ∀ other ∈ systemRows tablePrefix world .userRoles,
      ¬ IsAssignment userId roleId other)
    (hchanged : Changed tablePrefix .userRoles (.insert row) world world') :
    Simulates unicode tablePrefix world [.assign userId roleId] world' := by
  have hunique := h.assignments
  have htyped := h.assigned
  obtain ⟨before, after, hbefore, hafter, hfresh, rfl⟩ := hchanged.applies
  apply simulates_assignments h hchanged _ _ rfl rfl
  · rw [hafter, Table.rows_insert]
    rw [hbefore] at hunique htyped habsent
    constructor
    · apply hunique.append_singleton
      intro key hkey other hother hsame
      rw [(assignmentKey_eq_some_iff row userId roleId).mpr hassignment] at hkey
      obtain rfl := Option.some.inj hkey
      exact habsent other hother ((assignmentKey_eq_some_iff _ _ _).mp hsame)
    · intro other hother
      rw [List.mem_append, List.mem_singleton] at hother
      rcases hother with hold | rfl
      · exact htyped other hold
      · exact ⟨userId, roleId, hassignment⟩
  · apply Set.ext
    rintro ⟨user, role⟩
    show _ ↔ _ ∈ insert _ _
    rw [Set.mem_insert_iff, mem_assigned_policyOf, mem_assigned_policyOf, hbefore, hafter,
      Table.rows_insert, roleAssigned_append, or_comm]
    apply or_congr_left
    constructor
    · rintro ⟨other, hother, huser, hrole⟩
      obtain rfl := List.mem_singleton.mp hother
      rw [hassignment.1] at huser
      rw [hassignment.2] at hrole
      rw [JsValue.number.inj huser, JsValue.number.inj hrole]
    · intro heq
      obtain ⟨rfl, rfl⟩ := Prod.mk.inj heq
      exact ⟨row, List.mem_singleton_self row, hassignment⟩

theorem simulates_inserted (h : WellKept unicode tablePrefix world)
    (hinserted : Inserted tablePrefix userId roleId world world') :
    Simulates unicode tablePrefix world [.assign userId roleId] world' := by
  obtain ⟨habsent, row, hassignment, -, hchanged⟩ := hinserted
  exact simulates_assignment_inserted h hassignment habsent hchanged

theorem simulates_assigned (h : WellKept unicode tablePrefix world)
    (hassigned : Assigned tablePrefix userId roleId world world') :
    Simulates unicode tablePrefix world [.assign userId roleId] world' := by
  obtain ⟨middle, hinserted, hcleared⟩ := hassigned
  exact (simulates_inserted h hinserted).thenCleared hcleared

/-- Assigning a role that the user has is an edit that changes nothing. -/
theorem simulates_held (h : WellKept unicode tablePrefix world)
    (hheld : RoleAssigned userId roleId (systemRows tablePrefix world .userRoles))
    (hunchanged : Unchanged world world') :
    Simulates unicode tablePrefix world [.assign userId roleId] world' := by
  obtain ⟨htables, hkept, hpolicy⟩ := Simulates.unchanged h hunchanged
  refine ⟨htables, hkept, ?_⟩
  rw [hpolicy]
  apply RolePolicy.ext
  · rfl
  · exact (Set.insert_eq_of_mem (mem_assigned_policyOf.mpr hheld)).symm
  · rfl

/-- A removed assignment was the only one. -/
theorem simulates_removed (h : WellKept unicode tablePrefix world)
    (hremoved : Removed tablePrefix userId roleId world world') :
    Simulates unicode tablePrefix world [.unassign userId roleId] world' := by
  obtain ⟨row, middle, hassignment, hchanged, hcleared⟩ := hremoved
  apply Simulates.thenCleared _ hcleared
  have hunique := h.assignments
  have htyped := h.assigned
  obtain ⟨before, after, hbefore, hafter, hrow, rfl⟩ := hchanged.applies
  rw [hbefore] at hunique htyped
  apply simulates_assignments h hchanged _ _ rfl rfl
  · rw [hafter]
    constructor
    · apply hunique.of_subset
      intro other hother
      exact (Table.mem_delete.mp hother).1
    · intro other hother
      exact htyped other (Table.mem_delete.mp hother).1
  · apply Set.ext
    rintro ⟨user, role⟩
    show _ ↔ _ ∈ _ \ {_}
    rw [Set.mem_sdiff, Set.mem_singleton_iff, mem_assigned_policyOf, mem_assigned_policyOf, hbefore,
      hafter]
    constructor
    · rintro ⟨other, hother, hsame⟩
      obtain ⟨hmem, hid⟩ := Table.mem_delete.mp hother
      refine ⟨⟨other, hmem, hsame⟩, fun heq => ?_⟩
      -- another row of the assignment would have its key
      obtain ⟨rfl, rfl⟩ := Prod.mk.inj heq
      have hkey := (assignmentKey_eq_some_iff other _ _).mpr hsame
      have hrowKey := (assignmentKey_eq_some_iff row _ _).mpr hassignment
      exact hid (congrArg Row.id (hunique _ other hmem row hrow hkey hrowKey))
    · rintro ⟨⟨other, hother, hsame⟩, hne⟩
      refine ⟨other, Table.mem_delete.mpr ⟨hother, fun hid => hne ?_⟩, hsame⟩
      obtain rfl := Table.eq_of_id_eq hother hrow hid
      have hkey := (assignmentKey_eq_some_iff other _ _).mpr hsame
      have hrowKey := (assignmentKey_eq_some_iff other _ _).mpr hassignment
      exact Option.some.inj (hkey.symm.trans hrowKey)

end

/-! ## Permission rows -/

/-- The table that a permission row is for. -/
def permissionTable (row : Row) : JsString :=
  (permissionKey row).elim [] Prod.snd

/-- The actions that a dto allows. -/
def dtoRights (dto : SetTablePermissionsDto) : Set CrudAction :=
  {action | dto.allows action = true}

section

variable {unicode : UnicodeClasses} {tablePrefix : JsString} {world middle world' : World}
  {roleId : JsNumber} {dto : SetTablePermissionsDto} {row : Row} {name : JsString}

theorem permissionTable_of_key (h : permissionKey row = some (roleId, name)) :
    permissionTable row = name := by
  rw [permissionTable, h]
  rfl

/-- Replacing the row of a role and a table replaces the rights there. -/
theorem rights_of_replaces {written : Row}
    (hunique : UniqueKeys permissionKey (systemRows tablePrefix world .tablePermissions))
    (h : Replaces roleId name dto written (systemRows tablePrefix world .tablePermissions)
      (systemRows tablePrefix world' .tablePermissions)) :
    (policyOf tablePrefix world').rights =
      ((policyOf tablePrefix world).edit (.setRights roleId name (dtoRights dto))).rights := by
  have hwritten : rowRights written = dtoRights dto := by
    apply Set.ext
    intro action
    show (written.cell action.flag).truthy = true ↔ dto.allows action = true
    rw [h.flags action]
    rfl
  funext role table
  apply Option.ext
  intro actions
  rw [rights_policyOf (h.uniqueKeys hunique)]
  by_cases hsame : role = roleId ∧ table = name
  · obtain ⟨rfl, rfl⟩ := hsame
    rw [RolePolicy.rights_setRights_self, Option.some.injEq]
    constructor
    · rintro ⟨row, hrow, hkey, rfl⟩
      rcases (h.mem row).mp hrow with rfl | ⟨-, hne⟩
      · exact hwritten.symm
      · exact absurd hkey hne
    · rintro rfl
      exact ⟨written, h.written_mem, h.key, hwritten⟩
  · rw [RolePolicy.rights_setRights_of_ne _ _ hsame, rights_policyOf hunique]
    have hne : ∀ row, permissionKey row = some (role, table) →
        permissionKey row ≠ some (roleId, name) := by
      intro row hkey heq
      exact hsame (Prod.mk.inj (Option.some.inj (hkey.symm.trans heq)))
    constructor
    · rintro ⟨row, hrow, hkey, hrights⟩
      exact ⟨row, (h.mem_iff_of_key_ne (hne row hkey)).mp hrow, hkey, hrights⟩
    · rintro ⟨row, hrow, hkey, hrights⟩
      exact ⟨row, (h.mem_iff_of_key_ne (hne row hkey)).mpr hrow, hkey, hrights⟩

/-- A call of `setTablePermissions` sets the rights of a role on a table. -/
theorem simulates_permissionsSet (h : WellKept unicode tablePrefix world)
    (hname : Addresses roleId dto name) (hvalid : isValidTableName unicode name = true)
    (hset : PermissionsSet tablePrefix dto world world') :
    Simulates unicode tablePrefix world [.setRights roleId name (dtoRights dto)] world' := by
  obtain ⟨middle, hupserted, hcleared⟩ := hset
  apply Simulates.thenCleared _ hcleared
  obtain ⟨before, after, hbefore, hafter, hwritten, change, hchanged⟩ :=
    rowWritten_of_upserted hupserted
  obtain ⟨written, hreplaces⟩ := hwritten.replaces hname (hbefore ▸ h.permissions)
  rw [← hbefore, ← hafter] at hreplaces
  have hother : ∀ other, other ≠ .tablePermissions →
      systemRows tablePrefix middle other = systemRows tablePrefix world other :=
    fun other hne => hchanged.systemRows_of_ne h.distinct hne
  have hroles := hother .roles (by decide)
  have hassignments := hother .userRoles (by decide)
  refine ⟨hchanged.tables, ⟨?_, ?_, ?_, ?_, ?_⟩, ?_⟩
  · rw [hchanged.tables]
    exact h.distinct
  · rw [hassignments]
    exact h.assignments
  · exact hreplaces.uniqueKeys h.permissions
  · rw [hassignments]
    exact h.assigned
  · intro row hrow
    rcases (hreplaces.mem row).mp hrow with rfl | ⟨hold, -⟩
    · exact ⟨roleId, name, hreplaces.key, hvalid⟩
    · exact h.permitted row hold
  · apply RolePolicy.ext
    · show (policyOf tablePrefix middle).roles = (policyOf tablePrefix world).roles
      simp only [policyOf, hroles]
    · show (policyOf tablePrefix middle).assigned = (policyOf tablePrefix world).assigned
      simp only [policyOf, hassignments]
    · exact rights_of_replaces h.permissions hreplaces

/-! ## Deleted permission rows -/

/-- The tables that a role has rights on, in the order of their rows. -/
def listedTables (tablePrefix : JsString) (world : World) (roleId : JsNumber) : List JsString :=
  (rolePermissions tablePrefix world roleId).map permissionTable

theorem mem_rolePermissions_iff (h : WellKept unicode tablePrefix world) :
    row ∈ rolePermissions tablePrefix world roleId ↔
      row ∈ systemRows tablePrefix world .tablePermissions ∧
        permissionKey row = some (roleId, permissionTable row) := by
  rw [rolePermissions, List.mem_filter, decide_eq_true_iff]
  apply and_congr_right
  intro hrow
  obtain ⟨owner, table, hkey, -⟩ := h.permitted row hrow
  rw [permissionTable_of_key hkey, hkey, ((permissionKey_eq_some_iff row _ _).mp hkey).1]
  simp only [JsValue.number.injEq, Option.some.injEq, Prod.mk.injEq, and_true]

/-- The listed tables are those with rights, each of them once. -/
theorem listedTables_spec (h : WellKept unicode tablePrefix world) (roleId : JsNumber) :
    (listedTables tablePrefix world roleId).Nodup ∧
      ∀ name, name ∈ listedTables tablePrefix world roleId ↔
        ((policyOf tablePrefix world).rights roleId name).isSome = true := by
  constructor
  · have hrows : (rolePermissions tablePrefix world roleId).Nodup :=
      (nodup_systemRows tablePrefix world .tablePermissions).filter _
    apply List.Nodup.map_on _ hrows
    intro first hfirst second hsecond htable
    obtain ⟨hfirstMem, hfirstKey⟩ := (mem_rolePermissions_iff h).mp hfirst
    obtain ⟨hsecondMem, hsecondKey⟩ := (mem_rolePermissions_iff h).mp hsecond
    rw [← htable] at hsecondKey
    exact h.permissions _ first hfirstMem second hsecondMem hfirstKey hsecondKey
  · intro name
    rw [Option.isSome_iff_exists, listedTables, List.mem_map]
    simp only [rights_policyOf h.permissions]
    constructor
    · rintro ⟨row, hrow, rfl⟩
      obtain ⟨hmem, hkey⟩ := (mem_rolePermissions_iff h).mp hrow
      exact ⟨_, row, hmem, hkey, rfl⟩
    · rintro ⟨actions, row, hrow, hkey, -⟩
      refine ⟨row, (mem_rolePermissions_iff h).mpr ⟨hrow, ?_⟩, permissionTable_of_key hkey⟩
      rw [permissionTable_of_key hkey, hkey]

/-- Deleting the first permission rows of a role drops its rights on their tables. -/
theorem simulates_deletedFirst {applied : Nat} (h : WellKept unicode tablePrefix world)
    (hdeleted : DeletedFirst tablePrefix roleId applied world world') :
    Simulates unicode tablePrefix world
      (((listedTables tablePrefix world roleId).take applied).map (.dropRights roleId)) world' := by
  have hmem : ∀ row, row ∈ systemRows tablePrefix world' .tablePermissions ↔
      row ∈ systemRows tablePrefix world .tablePermissions ∧
        row ∉ (rolePermissions tablePrefix world roleId).take applied := by
    intro row
    cases hfound : resolve tablePrefix world.tables SystemTable.tablePermissions.name with
    | none => simp only [systemRows, hdeleted.tables, hfound, List.not_mem_nil, false_and]
    | some found =>
        have hfound' : resolve tablePrefix world'.tables SystemTable.tablePermissions.name =
            some found := by
          rw [hdeleted.tables, hfound]
        rw [systemRows_eq hfound', systemRows_eq hfound, hdeleted.rows]
        apply and_congr_right
        intro hrow
        constructor
        · intro hid htaken
          exact hid ⟨found, hfound, rfl⟩ (List.mem_map_of_mem htaken)
        · intro hnot _ hid
          obtain ⟨other, hother, heq⟩ := List.mem_map.mp hid
          have hotherMem : other ∈ (world.rows found.id).rows := by
            have hlisted := List.mem_of_mem_take hother
            rw [rolePermissions, systemRows_eq hfound] at hlisted
            exact (List.mem_filter.mp hlisted).1
          obtain rfl := Table.eq_of_id_eq hotherMem hrow heq
          exact hnot hother
  have hsame : ∀ table, table ≠ .tablePermissions → ∀ row,
      row ∈ systemRows tablePrefix world' table ↔ row ∈ systemRows tablePrefix world table := by
    intro table hne row
    cases hfound : resolve tablePrefix world.tables table.name with
    | none => simp only [systemRows, hdeleted.tables, hfound]
    | some found =>
        have hfound' : resolve tablePrefix world'.tables table.name = some found := by
          rw [hdeleted.tables, hfound]
        rw [systemRows_eq hfound', systemRows_eq hfound, hdeleted.rows]
        apply and_iff_left
        rintro ⟨other, hother, hid⟩
        exact absurd hid.symm (h.distinct table .tablePermissions hne found other hfound hother)
  have hroles := hsame .roles (by decide)
  have hassignments := hsame .userRoles (by decide)
  have hunique : UniqueKeys permissionKey (systemRows tablePrefix world' .tablePermissions) :=
    h.permissions.of_subset fun row hrow => ((hmem row).mp hrow).1
  refine ⟨hdeleted.tables, ⟨?_, ?_, hunique, ?_, ?_⟩, ?_⟩
  · rw [hdeleted.tables]
    exact h.distinct
  · exact h.assignments.of_subset fun row hrow => (hassignments row).mp hrow
  · exact fun row hrow => h.assigned row ((hassignments row).mp hrow)
  · exact fun row hrow => h.permitted row ((hmem row).mp hrow).1
  · rw [RolePolicy.edits_dropRights]
    apply RolePolicy.ext
    · simp only [policyOf, hroles]
    · simp only [policyOf, RoleAssigned, hassignments]
    · funext role table
      apply Option.ext
      intro actions
      rw [rights_policyOf hunique]
      have htaken : ∀ row ∈ systemRows tablePrefix world .tablePermissions,
          permissionKey row = some (role, table) →
          (row ∈ (rolePermissions tablePrefix world roleId).take applied ↔
            role = roleId ∧ table ∈ (listedTables tablePrefix world roleId).take applied) := by
        intro row hrow hkey
        rw [listedTables, ← List.map_take, List.mem_map]
        constructor
        · intro hrowTaken
          obtain ⟨-, hkey'⟩ := (mem_rolePermissions_iff h).mp (List.mem_of_mem_take hrowTaken)
          obtain ⟨rfl, -⟩ := Prod.mk.inj (Option.some.inj (hkey.symm.trans hkey'))
          exact ⟨rfl, row, hrowTaken, permissionTable_of_key hkey⟩
        · rintro ⟨rfl, other, hother, rfl⟩
          obtain ⟨hotherMem, hotherKey⟩ :=
            (mem_rolePermissions_iff h).mp (List.mem_of_mem_take hother)
          rwa [h.permissions _ row hrow other hotherMem hkey hotherKey]
      dsimp only
      by_cases hdropped : role = roleId ∧
          table ∈ (listedTables tablePrefix world roleId).take applied
      · rw [if_pos hdropped]
        refine iff_of_false ?_ (by simp)
        rintro ⟨row, hrow, hkey, -⟩
        obtain ⟨hold, hnot⟩ := (hmem row).mp hrow
        exact hnot ((htaken row hold hkey).mpr hdropped)
      · rw [if_neg hdropped, rights_policyOf h.permissions]
        constructor
        · rintro ⟨row, hrow, hkey, hrights⟩
          exact ⟨row, ((hmem row).mp hrow).1, hkey, hrights⟩
        · rintro ⟨row, hrow, hkey, hrights⟩
          refine ⟨row, (hmem row).mpr ⟨hrow, ?_⟩, hkey, hrights⟩
          exact fun hrowTaken => hdropped ((htaken row hrow hkey).mp hrowTaken)

end

end Runs
end NocoMiddleware
