import NocoMiddleware.Foundation.Invariant
import NocoMiddleware.Runs.Calls

/-!
# System roles over sequential runs

`CreateRoleDto` describes `is_system_role` as "a built-in system role that cannot be
deleted", and no code of the services reads the field.  A system role survives every
call that is not pointed at it: `deleteRole` with its id deletes it, and nothing else
does as long as the system tables are tables of their own.
-/

namespace NocoMiddleware
namespace Runs

open NocoMiddleware.Js NocoMiddleware.Tables NocoMiddleware.Store NocoMiddleware.Permissions
open NocoMiddleware.Users NocoMiddleware.Roles NocoMiddleware.Auth NocoMiddleware.Foundation

/-- A row of the roles table whose `is_system_role` is true. -/
def SystemRole (tablePrefix : JsString) (world : World) (row : Row) : Prop :=
  row ∈ systemRows tablePrefix world .roles ∧ row.cell (js "is_system_role") = .boolean true

instance (tablePrefix : JsString) (world : World) (row : Row) :
    Decidable (SystemRole tablePrefix world row) :=
  inferInstanceAs (Decidable (_ ∧ _))

/-- The call is not pointed at a system role.  The calls that remove rows of other system
tables could only reach one where their table is the roles table itself. -/
def Call.Spares (tablePrefix : JsString) (world : World) : Call → Prop
  | .deleteRole roleId =>
      ∀ row, SystemRole tablePrefix world row → JsNumber.ofNat row.id ≠ roleId
  | .removeRole userId roleId =>
      SharesTable tablePrefix world.tables .userRoles .roles →
        ∀ row, SystemRole tablePrefix world row → ¬ IsAssignment userId roleId row
  | .deleteRolePermissions roleId =>
      SharesTable tablePrefix world.tables .tablePermissions .roles →
        ∀ row, SystemRole tablePrefix world row → row.cell (js "role_id") ≠ .number roleId
  | _ => True

/-- There is a system role with the key. -/
def HasSystemRole (tablePrefix : JsString) (id : Nat) (world : World) : Prop :=
  ∃ row, SystemRole tablePrefix world row ∧ row.id = id

section

variable {tablePrefix : JsString} {id : Nat}

/-! ## Single changes -/

theorem hasSystemRole_reads : ReadsSystemRows tablePrefix (HasSystemRole tablePrefix id) := by
  rintro world world' heq ⟨row, ⟨hmem, hsystem⟩, hid⟩
  exact ⟨row, ⟨heq .roles ▸ hmem, hsystem⟩, hid⟩

theorem hasSystemRole_unchanged : Preserves Unchanged (HasSystemRole tablePrefix id) :=
  hasSystemRole_reads.unchanged

theorem hasSystemRole_cleared (userId : Option JsNumber) :
    Preserves (Cleared userId) (HasSystemRole tablePrefix id) :=
  hasSystemRole_reads.cleared userId

theorem hasSystemRole_insert (table : SystemTable) (row : Row) :
    Preserves (Changed tablePrefix table (.insert row)) (HasSystemRole tablePrefix id) := by
  rintro world world' h ⟨role, ⟨hmem, hsystem⟩, hid⟩
  exact ⟨role, ⟨h.mem_of_insert hmem, hsystem⟩, hid⟩

/-- Overwriting a row keeps its key, and `is_system_role` where the data leave it out. -/
theorem hasSystemRole_patch (table : SystemTable) (row : Row) {data : Payload}
    (hdata : js "is_system_role" ∉ data.map Prod.fst) :
    Preserves (Changed tablePrefix table (.patch row data)) (HasSystemRole tablePrefix id) := by
  rintro world world' h ⟨role, ⟨hmem, hsystem⟩, hid⟩
  rcases h.mem_of_patch_or hmem with hmem' | hmem'
  · exact ⟨role, ⟨hmem', hsystem⟩, hid⟩
  · have hcell := role.cell_patch_of_notMem hdata
    exact ⟨role.patch data, ⟨hmem', hcell.trans hsystem⟩, hid⟩

theorem hasSystemRole_of_remove {table : SystemTable} {row : Row} {world world' : World}
    (h : Changed tablePrefix table (.remove row) world world')
    (hspared : SharesTable tablePrefix world.tables table .roles →
      ¬ SystemRole tablePrefix world row)
    (hrole : HasSystemRole tablePrefix id world) : HasSystemRole tablePrefix id world' := by
  obtain ⟨role, hsystem, hid⟩ := hrole
  have hmem : role ∈ systemRows tablePrefix world' .roles := by
    apply h.mem_of_remove hsystem.1
    intro hshares heq
    exact hspared hshares (heq ▸ hsystem)
  exact ⟨role, ⟨hmem, hsystem.2⟩, hid⟩

/-! ## Permission rows -/

theorem hasSystemRole_upserted (dto : SetTablePermissionsDto) :
    Preserves (Upserted tablePrefix dto) (HasSystemRole tablePrefix id) := by
  have hdata : js "is_system_role" ∉ (permissionData dto).map Prod.fst := by
    show js "is_system_role" ∉ [js "role_id", js "table_name", js "can_create", js "can_read",
      js "can_update", js "can_delete"]
    decide
  rintro world world' ⟨-, ⟨row, -, hchanged⟩ | ⟨-, row, -, hchanged⟩⟩
  · exact hasSystemRole_patch _ row hdata world world' hchanged
  · exact hasSystemRole_insert _ row world world' hchanged

theorem hasSystemRole_permissionsSet (dto : SetTablePermissionsDto) :
    Preserves (PermissionsSet tablePrefix dto) (HasSystemRole tablePrefix id) :=
  (hasSystemRole_upserted dto).andThen (hasSystemRole_cleared none)

theorem hasSystemRole_permissionsSetSome (dtos : List SetTablePermissionsDto) :
    Preserves (PermissionsSetSome tablePrefix dtos) (HasSystemRole tablePrefix id) :=
  hasSystemRole_unchanged.someOf fun dto _ => hasSystemRole_permissionsSet dto

/-- The deleted permission rows are rows of the role in the permission table. -/
theorem hasSystemRole_of_deletedFirst {roleId : JsNumber} {applied : Nat} {world world' : World}
    (h : DeletedFirst tablePrefix roleId applied world world')
    (hspares : (Call.deleteRolePermissions roleId).Spares tablePrefix world)
    (hrole : HasSystemRole tablePrefix id world) : HasSystemRole tablePrefix id world' := by
  obtain ⟨role, hsystem, hid⟩ := hrole
  refine ⟨role, ⟨?_, hsystem.2⟩, hid⟩
  have hmem := hsystem.1
  cases hroles : resolve tablePrefix world.tables SystemTable.roles.name with
  | none =>
      simp only [systemRows, hroles] at hmem
      contradiction
  | some rolesTable =>
      have hroles' : resolve tablePrefix world'.tables SystemTable.roles.name =
          some rolesTable := by
        rw [h.tables, hroles]
      rw [systemRows_eq hroles']
      apply (h.rows rolesTable.id role).mpr
      refine ⟨systemRows_eq hroles ▸ hmem, ?_⟩
      rintro ⟨permissionsTable, hpermissions, hshared⟩ hdeleted
      obtain ⟨other, hother, hotherId⟩ := List.mem_map.mp hdeleted
      obtain ⟨hotherMem, hotherRole⟩ := List.mem_filter.mp (List.mem_of_mem_take hother)
      -- the two names resolve to one table, so the row with the key of the role is the role
      have hsame : other = role := by
        rw [systemRows_eq hpermissions, hshared, ← systemRows_eq hroles] at hotherMem
        exact eq_of_mem_systemRows hotherMem hmem hotherId
      rw [hsame] at hotherRole
      exact hspares ⟨permissionsTable, rolesTable, hpermissions, hroles, hshared⟩ role hsystem
        (of_decide_eq_true hotherRole)

/-! ## Assignments, users and the seeding -/

theorem hasSystemRole_inserted (userId roleId : JsNumber) :
    Preserves (Inserted tablePrefix userId roleId) (HasSystemRole tablePrefix id) := by
  rintro world world' ⟨-, row, -, -, hchanged⟩
  exact hasSystemRole_insert _ row world world' hchanged

theorem hasSystemRole_assigned (userId roleId : JsNumber) :
    Preserves (Assigned tablePrefix userId roleId) (HasSystemRole tablePrefix id) :=
  (hasSystemRole_inserted userId roleId).andThen (hasSystemRole_cleared _)

theorem hasSystemRole_assignedSome (userId : JsNumber) (roleIds : List JsNumber) :
    Preserves (AssignedSome tablePrefix userId roleIds) (HasSystemRole tablePrefix id) :=
  hasSystemRole_unchanged.someOf fun roleId _ => hasSystemRole_assigned userId roleId

theorem hasSystemRole_userCreated :
    Preserves (UserCreated tablePrefix) (HasSystemRole tablePrefix id) := by
  have hquietly : ∀ userId, Preserves (AssignedQuietly tablePrefix userId)
      (HasSystemRole tablePrefix id) := by
    intro userId
    apply Preserves.reflTransGen
    apply hasSystemRole_unchanged.or
    exact Preserves.exists_index (hasSystemRole_inserted userId)
  rintro world world' (h | ⟨row, middle, ⟨-, -, hchanged⟩, hquiet⟩) hrole
  · exact hasSystemRole_unchanged world world' h hrole
  · have hmiddle := hasSystemRole_insert _ row world middle hchanged hrole
    exact hquietly _ middle world' hquiet hmiddle

theorem hasSystemRole_bootstrapped (dto : BootstrapAdminDto) :
    Preserves (Bootstrapped tablePrefix dto) (HasSystemRole tablePrefix id) := by
  rintro world world' (h | ⟨user, -, -, role, -, -, hinserted⟩ |
    ⟨user, middle, hinserted, hrest⟩) hrole
  · exact hasSystemRole_unchanged world world' h hrole
  · exact hasSystemRole_inserted _ _ world world' hinserted hrole
  · have hmiddle := hasSystemRole_insert _ user world middle hinserted.2.2 hrole
    rcases hrest with hrest | ⟨row, -, -, -, hchanged⟩
    · exact hasSystemRole_unchanged middle world' hrest hmiddle
    · exact hasSystemRole_insert _ row middle world' hchanged hmiddle

theorem hasSystemRole_seeded : Preserves (Seeded tablePrefix) (HasSystemRole tablePrefix id) := by
  apply Preserves.reflTransGen
  apply hasSystemRole_unchanged.or
  apply Preserves.or
  · rintro world world' ⟨row, -, -, hchanged⟩
    exact hasSystemRole_insert _ row world world' hchanged
  · rintro world world' ⟨roleId, table, hupserted⟩
    exact hasSystemRole_upserted _ world world' hupserted

/-! ## Runs -/

/-- A call that is pointed at no system role leaves every system role in place, whether it
succeeds or fails at any request. -/
theorem hasSystemRole_of_performs {call : Call} {succeeds : Bool} {world world' : World}
    (hspares : call.Spares tablePrefix world)
    (hperforms : call.Performs tablePrefix true world succeeds world')
    (hrole : HasSystemRole tablePrefix id world) : HasSystemRole tablePrefix id world' := by
  have heffect := Call.effect_of_performs hperforms
  cases call with
  | deleteRole roleId =>
      have hdeleted := Completes.of_wp hperforms wp_deleteRole_removed
      cases succeeds with
      | false => exact hasSystemRole_unchanged _ _ hdeleted hrole
      | true =>
          obtain ⟨row, middle, hid, hchanged, hcleared⟩ := hdeleted
          apply hasSystemRole_cleared none middle world' hcleared
          apply hasSystemRole_of_remove hchanged _ hrole
          intro _ hsystem
          exact hspares row hsystem hid
  | removeRole userId roleId =>
      cases succeeds with
      | false => exact hasSystemRole_unchanged _ _ heffect hrole
      | true =>
          obtain ⟨row, middle, hassignment, hchanged, hcleared⟩ := heffect
          apply hasSystemRole_cleared _ middle world' hcleared
          apply hasSystemRole_of_remove hchanged _ hrole
          intro hshares hsystem
          exact hspares hshares row hsystem hassignment
  | deleteRolePermissions roleId =>
      cases succeeds with
      | false =>
          obtain ⟨applied, hdeleted⟩ := heffect
          exact hasSystemRole_of_deletedFirst hdeleted hspares hrole
      | true =>
          obtain ⟨middle, hdeleted, hcleared⟩ := heffect
          apply hasSystemRole_cleared none middle world' hcleared
          exact hasSystemRole_of_deletedFirst hdeleted hspares hrole
  | createRole dto =>
      cases succeeds with
      | false => exact hasSystemRole_unchanged _ _ heffect hrole
      | true =>
          obtain ⟨row, hchanged⟩ := heffect
          exact hasSystemRole_insert _ row world world' hchanged hrole
  | setTablePermissions dto =>
      cases succeeds with
      | false => exact hasSystemRole_unchanged _ _ heffect hrole
      | true => exact hasSystemRole_permissionsSet _ _ _ heffect hrole
  | assignRole dto =>
      cases succeeds with
      | false => exact hasSystemRole_unchanged _ _ heffect hrole
      | true => exact hasSystemRole_assigned _ _ _ _ heffect hrole
  | batchSetPermissions dto => exact hasSystemRole_permissionsSetSome _ _ _ heffect hrole
  | copyPermissions sourceRoleId targetRoleId =>
      exact hasSystemRole_permissionsSetSome _ _ _ heffect hrole
  | assignMultipleRoles dto => exact hasSystemRole_assignedSome _ _ _ _ heffect hrole
  | createLocalUser dto => exact hasSystemRole_userCreated _ _ heffect hrole
  | bootstrapAdmin configuredToken dto bootstrapToken =>
      exact hasSystemRole_bootstrapped _ _ _ heffect hrole
  | seedDefaultPermissions => exact hasSystemRole_seeded _ _ heffect hrole
  | getUserPermissions userId => exact loaded_of_reads hasSystemRole_reads userId _ _ heffect hrole

/-- One call with any arguments, successful or failing at any request. -/
def CallStep (tablePrefix : JsString) (world world' : World) : Prop :=
  ∃ (call : Call) (succeeds : Bool), call.Performs tablePrefix true world succeeds world'

/-- One call that is pointed at no system role. -/
def SparingStep (tablePrefix : JsString) (world world' : World) : Prop :=
  ∃ (call : Call) (succeeds : Bool), call.Spares tablePrefix world ∧
    call.Performs tablePrefix true world succeeds world'

/-- System roles survive every run none of whose calls is pointed at one, from any store. -/
theorem system_roles_survive (tablePrefix : JsString) {first world : World}
    (hrun : Relation.ReflTransGen (SparingStep tablePrefix) first world) :
    ∀ row, SystemRole tablePrefix first row →
      ∃ row', SystemRole tablePrefix world row' ∧ row'.id = row.id := by
  intro row hrow
  have hpreserves : Preserves (SparingStep tablePrefix) (HasSystemRole tablePrefix row.id) := by
    rintro before after ⟨call, succeeds, hspares, hperforms⟩
    exact hasSystemRole_of_performs hspares hperforms
  exact hpreserves.reflTransGen first world hrun ⟨row, hrow, rfl⟩

end

/-- A successful `deleteRole` leaves no role with its id, system role or not. -/
theorem not_hasSystemRole_of_deleteRole {tablePrefix : JsString} {id : Nat}
    {world world' : World}
    (hperforms : (Call.deleteRole (.ofNat id)).Performs tablePrefix true world true world') :
    ¬ HasSystemRole tablePrefix id world' := by
  obtain ⟨row, middle, hid, hchanged, hcleared⟩ :=
    Completes.of_wp hperforms wp_deleteRole_removed
  rintro ⟨role, ⟨hmem, -⟩, hrole⟩
  obtain ⟨before, after, -, hafter, -, rfl⟩ := hchanged.applies
  rw [hcleared.systemRows_eq, hafter] at hmem
  have hne : role.id ≠ row.id := (Table.mem_delete.mp hmem).2
  exact hne (hrole.trans (JsNumber.ofNat_inj.mp hid).symm)

/-- NocoDB answers at once and counts the keys up from 1. -/
def counting (count : Nat) : List Choice :=
  (List.range count).map fun step => ⟨false, step + 1, [], 0⟩

/-- The store after the first startup. -/
def seededWorld : World :=
  settle true (Store.seedDefaultPermissions []) (counting 16) (.holding [] [])

/-- The store after the first startup and a call of `deleteRole`. -/
def lockedOutWorld : World :=
  settle true (Roles.deleteRole [] (.ofNat 4)) (counting 3) seededWorld

/-- A role that is not a system role. -/
def editorDto : CreateRoleDto := ⟨js "editor", none, none⟩

/-- The store after the first startup and the creation of a role. -/
def editorWorld : World :=
  settle true (Roles.createRole [] editorDto) (prompt 4) seededWorld

theorem system_roles_survive_deleted_editor :
    ∃ world, Relation.ReflTransGen (SparingStep []) seededWorld world ∧
      ∀ row, SystemRole [] seededWorld row →
        ∃ row', SystemRole [] world row' ∧ row'.id = row.id := by
  have hcreate : SparingStep [] seededWorld editorWorld :=
    ⟨.createRole editorDto, true, trivial, completes_of_run (by decide)⟩
  have hspares : ∀ row ∈ systemRows [] editorWorld .roles,
      row.cell (js "is_system_role") = .boolean true → JsNumber.ofNat row.id ≠ .ofNat 9 := by
    decide
  have hdelete : SparingStep [] editorWorld
      (settle true (Roles.deleteRole [] (.ofNat 9)) (prompt 3) editorWorld) :=
    ⟨.deleteRole (.ofNat 9), true, fun row hrow => hspares row hrow.1 hrow.2,
      completes_of_run (by decide)⟩
  have hrun := (Relation.ReflTransGen.single hcreate).tail hdelete
  exact ⟨_, hrun, system_roles_survive [] hrun⟩

/-- `deleteRole` removes the admin role that the first startup has seeded. -/
theorem seeded_admin_role_removed :
    CallStep [] (.holding [] []) seededWorld ∧ CallStep [] seededWorld lockedOutWorld ∧
      ∃ row, SystemRole [] seededWorld row ∧
        row.cell (js "role_name") = .string (js "admin") ∧
        ¬ ∃ row', SystemRole [] lockedOutWorld row' ∧ row'.id = row.id := by
  refine ⟨⟨.seedDefaultPermissions, true, completes_of_run (by decide)⟩,
    ⟨.deleteRole (.ofNat 4), true, completes_of_run (by decide)⟩,
    ⟨4, by decide, toCells adminRoleData⟩, by decide, by decide, ?_⟩
  rintro ⟨row, ⟨hrow, -⟩, -⟩
  have hempty : systemRows [] lockedOutWorld .roles = [] := by decide
  rw [hempty] at hrow
  contradiction

end Runs
end NocoMiddleware
