import NocoMiddleware.Foundation.Invariant
import NocoMiddleware.Runs.SystemRoles

/-!
# New roles

No service checks that a role exists before it writes a row that refers to it.
A role that is created later under the same id then has users and rights at once.
As long as every call names roles that exist or existed, all stored references do
(`Grounded`), and a role with an id that no role ever had starts with neither.
-/

namespace NocoMiddleware
namespace Runs

open NocoMiddleware.Js NocoMiddleware.Tables NocoMiddleware.Store NocoMiddleware.Permissions
open NocoMiddleware.Users NocoMiddleware.Roles NocoMiddleware.Foundation

/-- A store, and the ids that some role has or had. -/
structure History where
  world : World
  had : Nat → Prop

/-- Some role has the id. -/
def IsRole (tablePrefix : JsString) (world : World) (id : Nat) : Prop :=
  ∃ row ∈ systemRows tablePrefix world .roles, row.id = id

instance (tablePrefix : JsString) (world : World) (id : Nat) :
    Decidable (IsRole tablePrefix world id) :=
  inferInstanceAs (Decidable (∃ row ∈ systemRows tablePrefix world .roles, row.id = id))

/-- The start of a history: the roles are those of the store. -/
def History.start (tablePrefix : JsString) (world : World) : History :=
  ⟨world, IsRole tablePrefix world⟩

/-- The users that the row assigns a role to are assigned one of the given roles. -/
def AssignsOnly (had : Nat → Prop) (row : Row) : Prop :=
  ∀ userId roleId, Assigns row userId roleId → had roleId

/-- The rights that the row grants are granted to one of the given roles. -/
def PermitsOnly (had : Nat → Prop) (row : Row) : Prop :=
  ∀ roleId table action, Permits row roleId table action → had roleId

/-- All assignments and granted rights are those of roles that exist or existed. -/
structure Grounded (tablePrefix : JsString) (had : Nat → Prop) (world : World) : Prop where
  assignments : ∀ row ∈ systemRows tablePrefix world .userRoles, AssignsOnly had row
  permissions : ∀ row ∈ systemRows tablePrefix world .tablePermissions, PermitsOnly had row

/-- If the number is the id of a role then of one that exists or existed. -/
def NamesOnly (had : Nat → Prop) (roleId : JsNumber) : Prop :=
  ∀ id, roleId = .ofNat id → had id

/-- The dto ticks a flag only for a role that exists or existed. -/
def GrantsOnly (had : Nat → Prop) (dto : SetTablePermissionsDto) : Prop :=
  ∀ action, dto.allows action = true → NamesOnly had dto.roleId

/-- The calls of the role, permission and user-role services. -/
def Call.isRoleService : Call → Bool
  | .createLocalUser _ => false
  | .bootstrapAdmin _ _ _ => false
  | .seedDefaultPermissions => false
  | _ => true

/-- The call assigns roles and ticks flags only for roles that exist or existed. -/
def Call.NamesRoles (tablePrefix : JsString) (history : History) : Call → Prop
  | .assignRole dto => NamesOnly history.had dto.roleId
  | .assignMultipleRoles dto => ∀ roleId ∈ dto.roleIds, NamesOnly history.had roleId
  | .setTablePermissions dto => GrantsOnly history.had dto
  | .batchSetPermissions dto =>
      ∀ item ∈ dto.permissions, GrantsOnly history.had (batchDto dto.roleId item)
  | .copyPermissions sourceRoleId targetRoleId =>
      ∀ dto ∈ copyDtos tablePrefix history.world sourceRoleId targetRoleId,
        GrantsOnly history.had dto
  | _ => True

section

variable {tablePrefix : JsString} {had : Nat → Prop}

theorem assignsOnly_of_undefined {row : Row} (h : row.cell (js "user_id") = .undefined) :
    AssignsOnly had row := by
  rintro userId roleId ⟨huser, -⟩
  rw [h] at huser
  contradiction

theorem permitsOnly_of_role_id {row : Row} (h : row.cell (js "role_id") = .undefined) :
    PermitsOnly had row := by
  rintro roleId table action ⟨hrole, -⟩
  rw [h] at hrole
  contradiction

theorem permitsOnly_of_table_name {row : Row} (h : row.cell (js "table_name") = .undefined) :
    PermitsOnly had row := by
  rintro roleId table action ⟨-, htable, -⟩
  rw [h] at htable
  contradiction

/-! ## Single changes -/

theorem Grounded.mono {later : Nat → Prop} {world : World} (h : Grounded tablePrefix had world)
    (hle : ∀ id, had id → later id) : Grounded tablePrefix later world where
  assignments row hrow userId roleId hassigns :=
    hle roleId (h.assignments row hrow userId roleId hassigns)
  permissions row hrow roleId table action hpermits :=
    hle roleId (h.permissions row hrow roleId table action hpermits)

theorem grounded_of_subset {world world' : World}
    (hsubset : ∀ table, ∀ row ∈ systemRows tablePrefix world' table,
      row ∈ systemRows tablePrefix world table)
    (h : Grounded tablePrefix had world) : Grounded tablePrefix had world' where
  assignments row hrow := h.assignments row (hsubset _ row hrow)
  permissions row hrow := h.permissions row (hsubset _ row hrow)

theorem grounded_reads : ReadsSystemRows tablePrefix (Grounded tablePrefix had) := by
  intro world world' heq
  apply grounded_of_subset
  intro table row hrow
  rwa [heq] at hrow

theorem grounded_unchanged : Preserves Unchanged (Grounded tablePrefix had) :=
  grounded_reads.unchanged

theorem grounded_cleared (userId : Option JsNumber) :
    Preserves (Cleared userId) (Grounded tablePrefix had) :=
  grounded_reads.cleared userId

theorem grounded_deletedFirst (roleId : JsNumber) (applied : Nat) :
    Preserves (DeletedFirst tablePrefix roleId applied) (Grounded tablePrefix had) := by
  intro world world' h
  exact grounded_of_subset fun _ _ => h.mem_systemRows

/-- A write keeps the references grounded if it does so in the row it is about. -/
theorem grounded_of_changed {table : SystemTable} {change : Change} {world world' : World}
    (h : Changed tablePrefix table change world world')
    (hassigns : change.Keeps (AssignsOnly had)) (hpermits : change.Keeps (PermitsOnly had))
    (hgrounded : Grounded tablePrefix had world) : Grounded tablePrefix had world' := by
  constructor
  · exact h.forall_systemRows hgrounded.assignments hassigns
  · exact h.forall_systemRows hgrounded.permissions hpermits

/-! ## Assignments -/

theorem grounded_inserted {userId roleId : JsNumber} (hnames : NamesOnly had roleId) :
    Preserves (Inserted tablePrefix userId roleId) (Grounded tablePrefix had) := by
  rintro world world' ⟨-, row, ⟨-, hrole⟩, htable, hchanged⟩
  have hassigns : AssignsOnly had row := by
    rintro user id ⟨-, hid⟩
    rw [hrole, JsValue.toNumber_number] at hid
    exact hnames id hid
  exact grounded_of_changed hchanged hassigns (permitsOnly_of_table_name htable)

theorem grounded_assigned {userId roleId : JsNumber} (hnames : NamesOnly had roleId) :
    Preserves (Assigned tablePrefix userId roleId) (Grounded tablePrefix had) :=
  (grounded_inserted hnames).andThen (grounded_cleared _)

theorem grounded_assignedSome {userId : JsNumber} {roleIds : List JsNumber}
    (hnames : ∀ roleId ∈ roleIds, NamesOnly had roleId) :
    Preserves (AssignedSome tablePrefix userId roleIds) (Grounded tablePrefix had) :=
  grounded_unchanged.someOf fun roleId hmem => grounded_assigned (hnames roleId hmem)

theorem grounded_removed (userId roleId : JsNumber) :
    Preserves (Removed tablePrefix userId roleId) (Grounded tablePrefix had) := by
  rintro world world' ⟨row, middle, -, hchanged, hcleared⟩ hgrounded
  have hmiddle := grounded_of_changed hchanged trivial trivial hgrounded
  exact grounded_cleared _ middle world' hcleared hmiddle

/-! ## Permission rows -/

/-- A written row grants what its dto ticks, to the role of its dto. -/
theorem permitsOnly_of_written {dto : SetTablePermissionsDto} {row : Row}
    {rest : List (JsString × JsonScalar)} (hgrants : GrantsOnly had dto)
    (hfinite : ∃ x, dto.roleId = .finite x)
    (hcells : row.cells = toCells (permissionData dto) ++ rest) : PermitsOnly had row := by
  rintro roleId table action ⟨hrole, -, -, htruthy⟩
  rw [cell_role_id_of_written hfinite hcells] at hrole
  rw [cell_flag_of_written hfinite hcells] at htruthy
  exact hgrants action htruthy roleId (JsValue.number.inj hrole)

theorem grounded_upserted {dto : SetTablePermissionsDto} (hgrants : GrantsOnly had dto) :
    Preserves (Upserted tablePrefix dto) (Grounded tablePrefix had) := by
  rintro world world' ⟨hfinite, ⟨row, hmatches, hchanged⟩ | ⟨-, row, hcells, hchanged⟩⟩
  · -- the overwritten row keeps its user, if it has one, and its role
    have hcells : (row.patch (permissionData dto)).cells =
        toCells (permissionData dto) ++ row.cells := rfl
    have huser : (row.patch (permissionData dto)).cell (js "user_id") =
        row.cell (js "user_id") := by
      rw [cell_user_id_of_written hfinite hcells, Row.cell_of_cells rfl (by decide)]
    have hrole : (row.patch (permissionData dto)).cell (js "role_id") =
        row.cell (js "role_id") := by
      rw [cell_role_id_of_written hfinite hcells, hmatches.1]
    have hassigns : AssignsOnly had row →
        AssignsOnly had (row.patch (permissionData dto)) := by
      rintro h userId roleId ⟨huserId, hroleId⟩
      rw [huser] at huserId
      rw [hrole] at hroleId
      exact h userId roleId ⟨huserId, hroleId⟩
    have hpermits : PermitsOnly had (row.patch (permissionData dto)) :=
      permitsOnly_of_written hgrants hfinite hcells
    exact grounded_of_changed hchanged hassigns fun _ => hpermits
  · have hcells : row.cells = toCells (permissionData dto) ++ [] := by
      rw [hcells, List.append_nil]
    have hassigns : AssignsOnly had row :=
      assignsOnly_of_undefined (cell_user_id_of_written hfinite hcells)
    have hpermits : PermitsOnly had row := permitsOnly_of_written hgrants hfinite hcells
    exact grounded_of_changed hchanged hassigns hpermits

theorem grounded_permissionsSet {dto : SetTablePermissionsDto} (hgrants : GrantsOnly had dto) :
    Preserves (PermissionsSet tablePrefix dto) (Grounded tablePrefix had) :=
  (grounded_upserted hgrants).andThen (grounded_cleared none)

theorem grounded_permissionsSetSome {dtos : List SetTablePermissionsDto}
    (hgrants : ∀ dto ∈ dtos, GrantsOnly had dto) :
    Preserves (PermissionsSetSome tablePrefix dtos) (Grounded tablePrefix had) :=
  grounded_unchanged.someOf fun dto hmem => grounded_permissionsSet (hgrants dto hmem)

/-! ## Roles -/

/-- The row of a new role refers to no user and to no role. -/
theorem cells_of_role {dto : CreateRoleDto} {row : Row}
    (hcells : row.cells = toCells (roleData dto)) :
    row.cell (js "user_id") = .undefined ∧ row.cell (js "role_id") = .undefined := by
  constructor
  · exact (Row.cell_of_cells hcells (by decide)).trans rfl
  · exact (Row.cell_of_cells hcells (by decide)).trans rfl

theorem grounded_createRole {dto : CreateRoleDto} {world world' : World} {succeeds : Bool}
    (hperforms : (Call.createRole dto).Performs tablePrefix true world succeeds world')
    (hgrounded : Grounded tablePrefix had world) : Grounded tablePrefix had world' := by
  have hcreated := Completes.of_wp hperforms wp_createRole_inserted
  cases succeeds with
  | false => exact grounded_unchanged world world' hcreated hgrounded
  | true =>
      obtain ⟨row, hcells, hchanged⟩ := hcreated
      obtain ⟨huser, hrole⟩ := cells_of_role hcells
      have hassigns : AssignsOnly had row := assignsOnly_of_undefined huser
      have hpermits : PermitsOnly had row := permitsOnly_of_role_id hrole
      exact grounded_of_changed hchanged hassigns hpermits hgrounded

/-- A new role that nobody holds leaves all rights as they are. -/
theorem grants_iff_of_created {dto : CreateRoleDto} {role : Row} {world world' : World}
    (hcells : role.cells = toCells (roleData dto))
    (hchanged : Changed tablePrefix .roles (.insert role) world world')
    (hempty : ∀ userId, ¬ HoldsRole tablePrefix world' userId role.id)
    (userId : JsNumber) (table : JsString) (action : CrudAction) :
    Grants tablePrefix world' userId table action ↔
      Grants tablePrefix world userId table action := by
  obtain ⟨huser, hrole⟩ := cells_of_role hcells
  constructor
  · rintro ⟨hresolve, roleId, hholds, row, hrow, hpermits⟩
    have hholds' := hholds
    obtain ⟨hpositive, ⟨assignment, hassignment, hassigns⟩, other, hother, hid⟩ := hholds
    have holdAssignment : assignment ∈ systemRows tablePrefix world .userRoles := by
      rcases hchanged.mem_insert hassignment with hold | rfl
      · exact hold
      · have hnone : AssignsOnly (fun _ => False) assignment := assignsOnly_of_undefined huser
        exact (hnone userId roleId hassigns).elim
    have holdRow : row ∈ systemRows tablePrefix world .tablePermissions := by
      rcases hchanged.mem_insert hrow with hold | rfl
      · exact hold
      · have hnone : PermitsOnly (fun _ => False) row := permitsOnly_of_role_id hrole
        exact (hnone roleId table action hpermits).elim
    have holdRole : other ∈ systemRows tablePrefix world .roles := by
      rcases hchanged.mem_insert hother with hold | rfl
      · exact hold
      · exact absurd (hid ▸ hholds') (hempty userId)
    rw [hchanged.tables] at hresolve
    exact ⟨hresolve, roleId, ⟨hpositive, ⟨assignment, holdAssignment, hassigns⟩, other, holdRole,
      hid⟩, row, holdRow, hpermits⟩
  · rintro ⟨hresolve, roleId, ⟨hpositive, ⟨assignment, hassignment, hassigns⟩, other, hother, hid⟩,
      row, hrow, hpermits⟩
    rw [← hchanged.tables] at hresolve
    exact ⟨hresolve, roleId, ⟨hpositive, ⟨assignment, hchanged.mem_of_insert hassignment, hassigns⟩,
      other, hchanged.mem_of_insert hother, hid⟩, row, hchanged.mem_of_insert hrow, hpermits⟩

/-! ## Runs -/

/-- A call that names roles keeps the references grounded, whether it succeeds or fails at
any request. -/
theorem grounded_of_performs {call : Call} {succeeds : Bool} {history : History} {world' : World}
    (hservice : call.isRoleService = true) (hnames : call.NamesRoles tablePrefix history)
    (hperforms : call.Performs tablePrefix true history.world succeeds world')
    (hgrounded : Grounded tablePrefix history.had history.world) :
    Grounded tablePrefix history.had world' := by
  have heffect := Call.effect_of_performs hperforms
  cases call with
  | createLocalUser dto => contradiction
  | bootstrapAdmin configuredToken dto bootstrapToken => contradiction
  | seedDefaultPermissions => contradiction
  | createRole dto => exact grounded_createRole hperforms hgrounded
  | deleteRole roleId =>
      cases succeeds with
      | false => exact grounded_unchanged _ _ heffect hgrounded
      | true =>
          obtain ⟨row, middle, hchanged, hcleared⟩ := heffect
          have hmiddle := grounded_of_changed hchanged trivial trivial hgrounded
          exact grounded_cleared none middle world' hcleared hmiddle
  | setTablePermissions dto =>
      cases succeeds with
      | false => exact grounded_unchanged _ _ heffect hgrounded
      | true => exact grounded_permissionsSet hnames _ _ heffect hgrounded
  | batchSetPermissions dto =>
      apply grounded_permissionsSetSome _ _ _ heffect hgrounded
      intro other hother
      obtain ⟨item, hitem, rfl⟩ := List.mem_map.mp hother
      exact hnames item hitem
  | copyPermissions sourceRoleId targetRoleId =>
      exact grounded_permissionsSetSome hnames _ _ heffect hgrounded
  | deleteRolePermissions roleId =>
      cases succeeds with
      | false =>
          obtain ⟨applied, hdeleted⟩ := heffect
          exact grounded_deletedFirst roleId applied _ _ hdeleted hgrounded
      | true =>
          obtain ⟨middle, hdeleted, hcleared⟩ := heffect
          have hmiddle := grounded_deletedFirst roleId _ _ middle hdeleted hgrounded
          exact grounded_cleared none middle world' hcleared hmiddle
  | assignRole dto =>
      cases succeeds with
      | false => exact grounded_unchanged _ _ heffect hgrounded
      | true => exact grounded_assigned hnames _ _ heffect hgrounded
  | assignMultipleRoles dto => exact grounded_assignedSome hnames _ _ heffect hgrounded
  | removeRole userId roleId =>
      cases succeeds with
      | false => exact grounded_unchanged _ _ heffect hgrounded
      | true => exact grounded_removed userId roleId _ _ heffect hgrounded
  | getUserPermissions userId => exact loaded_of_reads grounded_reads userId _ _ heffect hgrounded

/-- One call of the role, permission and user-role services that names only roles that exist
or existed, successful or failing at any request. -/
def NamingStep (tablePrefix : JsString) (history history' : History) : Prop :=
  ∃ (call : Call) (succeeds : Bool), call.isRoleService = true ∧
    call.NamesRoles tablePrefix history ∧
    call.Performs tablePrefix true history.world succeeds history'.world ∧
    history'.had = fun id => history.had id ∨ IsRole tablePrefix history'.world id

theorem grounded_namingStep : Preserves (NamingStep tablePrefix)
    (fun history => Grounded tablePrefix history.had history.world) := by
  rintro history ⟨world', had'⟩ ⟨call, succeeds, hservice, hnames, hperforms, hhad⟩ hgrounded
  obtain rfl : had' = fun id => history.had id ∨ IsRole tablePrefix world' id := hhad
  have hgrounded' := grounded_of_performs hservice hnames hperforms hgrounded
  exact hgrounded'.mono fun _ => Or.inl

/-- In a run whose calls name only roles that exist or existed, a role that is created with
an id that no role ever had is assigned to no user and granted nothing, and the creation
changes no user's rights. -/
theorem new_role_starts_empty (tablePrefix : JsString) {first : World} {history : History}
    {dto : CreateRoleDto} {world' : World}
    (hfirst : Grounded tablePrefix (IsRole tablePrefix first) first)
    (hrun : Relation.ReflTransGen (NamingStep tablePrefix) (.start tablePrefix first) history)
    (hcreate : (Call.createRole dto).Performs tablePrefix true history.world true world')
    (hfresh : ∀ role ∈ systemRows tablePrefix world' .roles,
      role ∉ systemRows tablePrefix history.world .roles → ¬ history.had role.id) :
    (∀ role ∈ systemRows tablePrefix world' .roles,
      role ∉ systemRows tablePrefix history.world .roles →
        (∀ userId, ¬ HoldsRole tablePrefix world' userId role.id) ∧
        ∀ row ∈ systemRows tablePrefix world' .tablePermissions, ∀ table action,
          ¬ Permits row role.id table action) ∧
      ∀ userId table action, Grants tablePrefix world' userId table action ↔
        Grants tablePrefix history.world userId table action := by
  have hgrounded := grounded_namingStep.reflTransGen _ _ hrun hfirst
  have hgrounded' := grounded_createRole hcreate hgrounded
  have hempty : ∀ role ∈ systemRows tablePrefix world' .roles,
      role ∉ systemRows tablePrefix history.world .roles →
        ∀ userId, ¬ HoldsRole tablePrefix world' userId role.id := by
    rintro role hrole hnew userId ⟨-, ⟨row, hrow, hassigns⟩, -⟩
    exact hfresh role hrole hnew (hgrounded'.assignments row hrow userId role.id hassigns)
  constructor
  · intro role hrole hnew
    refine ⟨hempty role hrole hnew, ?_⟩
    intro row hrow table action hpermits
    exact hfresh role hrole hnew (hgrounded'.permissions row hrow role.id table action hpermits)
  · obtain ⟨role, hcells, hchanged⟩ := Completes.of_wp hcreate wp_createRole_inserted
    obtain ⟨hnew, hmem⟩ := hchanged.inserted_mem
    exact grants_iff_of_created hcells hchanged (hempty role hmem hnew)

end

/-- Roles in a store: admin has the id 4, and nothing refers to a role that does not exist. -/
theorem grounded_seededWorld : Grounded [] (IsRole [] seededWorld) seededWorld where
  assignments row hrow := by
    have hempty : systemRows [] seededWorld .userRoles = [] := by decide
    rw [hempty] at hrow
    contradiction
  permissions row hrow roleId table action hpermits := by
    have hadmin : ∀ row ∈ systemRows [] seededWorld .tablePermissions,
        row.cell (js "role_id") = .number (.ofNat 4) := by
      decide
    have hrole := hpermits.1
    rw [hadmin row hrow, JsValue.number.injEq, JsNumber.ofNat_inj] at hrole
    exact hrole ▸ (by decide : IsRole [] seededWorld 4)

/-- The store after the admin role was assigned to user 7. -/
def assignedWorld : World :=
  settle true (Users.assignRole [] ⟨.ofNat 7, .ofNat 4⟩) (prompt 5) seededWorld

/-- The roles have not changed by then. -/
def assignedHistory : History where
  world := assignedWorld
  had id := IsRole [] seededWorld id ∨ IsRole [] assignedWorld id

/-- Then a role is created. -/
def createdWorld : World :=
  settle true (Roles.createRole [] editorDto) (prompt 4) assignedWorld

theorem new_role_starts_empty_editor :
    (∀ role ∈ systemRows [] createdWorld .roles,
      role ∉ systemRows [] assignedWorld .roles →
        (∀ userId, ¬ HoldsRole [] createdWorld userId role.id) ∧
        ∀ row ∈ systemRows [] createdWorld .tablePermissions, ∀ table action,
          ¬ Permits row role.id table action) ∧
      ∀ userId table action, Grants [] createdWorld userId table action ↔
        Grants [] assignedWorld userId table action := by
  have hperforms : (Call.assignRole ⟨.ofNat 7, .ofNat 4⟩).Performs [] true seededWorld true
      assignedWorld := completes_of_run (by decide)
  have hassign : NamingStep [] (.start [] seededWorld) assignedHistory := by
    refine ⟨.assignRole ⟨.ofNat 7, .ofNat 4⟩, true, rfl, ?_, hperforms, rfl⟩
    intro id hid
    rw [JsNumber.ofNat_inj] at hid
    exact hid ▸ (by decide : IsRole [] seededWorld 4)
  have hcreate : (Call.createRole editorDto).Performs [] true assignedWorld true
      createdWorld := completes_of_run (by decide)
  refine new_role_starts_empty [] grounded_seededWorld (.single hassign) hcreate ?_
  intro role hrole hnew
  have hids : ∀ role ∈ systemRows [] createdWorld .roles,
      role ∈ systemRows [] assignedWorld .roles ∨ role.id = 9 := by
    decide
  have hid : role.id = 9 := (hids role hrole).resolve_left hnew
  rw [hid]
  rintro (hhad | hhad)
  · revert hhad
    decide
  · revert hhad
    decide

/-- A right on the table "orders", given to role 9. -/
def ordersDto : SetTablePermissionsDto :=
  ⟨⟨false, true, false, false⟩, .ofNat 9, .string (js "orders")⟩

/-- Role 9 is assigned to user 7, before there is such a role. -/
def danglingWorld : World :=
  settle false (Users.assignRole [] ⟨.ofNat 7, .ofNat 9⟩) (prompt 5) seededWorld

/-- Role 9 is granted a right, before there is such a role. -/
def grantedWorld : World :=
  settle false (Permissions.setTablePermissions [] ordersDto) (prompt 4) danglingWorld

/-- A role is created, with the id 9. -/
def inheritedWorld : World :=
  settle false (Roles.createRole [] editorDto) (prompt 4) grantedWorld

/-- A user is assigned role 9, role 9 is granted a right, and the role that is created after
that has both at once. -/
theorem new_role_has_user_and_right :
    (Call.assignRole ⟨.ofNat 7, .ofNat 9⟩).Performs [] false seededWorld true danglingWorld ∧
      (Call.setTablePermissions ordersDto).Performs [] false danglingWorld true grantedWorld ∧
      (Call.createRole editorDto).Performs [] false grantedWorld true inheritedWorld ∧
      (∀ world ∈ [seededWorld, danglingWorld, grantedWorld], ¬ IsRole [] world 9) ∧
      IsRole [] inheritedWorld 9 ∧ HoldsRole [] inheritedWorld (.ofNat 7) 9 ∧
      Grants [] inheritedWorld (.ofNat 7) (js "orders") .read := by
  have hassigned : ∃ row ∈ systemRows [] inheritedWorld .userRoles,
      row.cell (js "user_id") = .number (.ofNat 7) ∧
        (row.cell (js "role_id")).toNumber = .ofNat 9 := by
    decide
  have hpermitted : ∃ row ∈ systemRows [] inheritedWorld .tablePermissions,
      row.cell (js "role_id") = .number (.ofNat 9) ∧
        row.cell (js "table_name") = .string (js "orders") ∧ js "orders" ≠ [] ∧
        (row.cell CrudAction.read.flag).truthy = true := by
    decide
  have hrole : IsRole [] inheritedWorld 9 := by decide
  have hholds : HoldsRole [] inheritedWorld (.ofNat 7) 9 := ⟨by decide, hassigned, hrole⟩
  have hresolve : ∀ system ∈ SystemTable.all,
      (resolve [] inheritedWorld.tables system.name).isSome = true := by
    decide
  refine ⟨completes_of_run (by decide), completes_of_run (by decide),
    completes_of_run (by decide), by decide, hrole, hholds, ?_⟩
  exact ⟨fun system => hresolve system (SystemTable.mem_all system), 9, hholds, hpermitted⟩

end Runs
end NocoMiddleware
