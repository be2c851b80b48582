import NocoMiddleware.Foundation.Invariant
import NocoMiddleware.Runs.Calls

/-!
# Key uniqueness over sequential runs

No service holds two assignments of one role to one user, or two permission rows
of one role and one table, apart: each of them finds a row before it creates one.
`KeyInvariant` is the invariant that this rests on; every change that a service
makes preserves it, so it holds along every run of calls, successful or failing.
-/

namespace NocoMiddleware
namespace Runs

open NocoMiddleware.Js NocoMiddleware.Filter NocoMiddleware.Tables NocoMiddleware.Store
open NocoMiddleware.Permissions NocoMiddleware.Users NocoMiddleware.Auth
open NocoMiddleware.Foundation

/-- The user and the role of an assignment. -/
def assignmentKey (row : Row) : Option (JsNumber × JsNumber) :=
  match row.cell (js "user_id"), row.cell (js "role_id") with
  | .number userId, .number roleId => some (userId, roleId)
  | _, _ => none

/-- The role and the table of a permission row. -/
def permissionKey (row : Row) : Option (JsNumber × JsString) :=
  match row.cell (js "role_id"), row.cell (js "table_name") with
  | .number roleId, .string table => some (roleId, table)
  | _, _ => none

theorem assignmentKey_eq_some_iff (row : Row) (userId roleId : JsNumber) :
    assignmentKey row = some (userId, roleId) ↔ IsAssignment userId roleId row := by
  unfold assignmentKey IsAssignment
  split
  · next hkey => simp_all
  · next hkey =>
      refine iff_of_false (by simp) ?_
      rintro ⟨huser, hrole⟩
      exact hkey _ _ huser hrole

theorem permissionKey_eq_some_iff (row : Row) (roleId : JsNumber) (table : JsString) :
    permissionKey row = some (roleId, table) ↔
      row.cell (js "role_id") = .number roleId ∧ row.cell (js "table_name") = .string table := by
  unfold permissionKey
  split
  · next hkey => simp_all
  · next hkey =>
      refine iff_of_false (by simp) ?_
      rintro ⟨hrole, htable⟩
      exact hkey _ _ hrole htable

/-- Assignments and permission rows have unique keys, and the stored table names
are valid. -/
structure KeyInvariant (unicode : UnicodeClasses) (tablePrefix : JsString) (world : World) :
    Prop where
  assignments : UniqueKeys assignmentKey (systemRows tablePrefix world .userRoles)
  permissions : UniqueKeys permissionKey (systemRows tablePrefix world .tablePermissions)
  names : ∀ row ∈ systemRows tablePrefix world .tablePermissions, ∀ table,
    row.cell (js "table_name") = .string table → isValidTableName unicode table = true

section

variable {unicode : UnicodeClasses} {tablePrefix : JsString}

/-! ## Single changes -/

theorem keyInvariant_reads :
    ReadsSystemRows tablePrefix (KeyInvariant unicode tablePrefix) := by
  rintro world world' heq ⟨hassignments, hpermissions, hnames⟩
  constructor
  · rwa [heq]
  · rwa [heq]
  · rwa [heq]

theorem preserves_unchanged : Preserves Unchanged (KeyInvariant unicode tablePrefix) :=
  keyInvariant_reads.unchanged

theorem preserves_cleared (userId : Option JsNumber) :
    Preserves (Cleared userId) (KeyInvariant unicode tablePrefix) :=
  keyInvariant_reads.cleared userId

/-- A change of a table keeps the invariant if it keeps the keys of assignments and
of permissions unique and the table names valid, whichever tables it touches. -/
theorem preserves_changed {table : SystemTable} {change : Change} {world world' : World}
    (h : Changed tablePrefix table change world world')
    (hinvariant : KeyInvariant unicode tablePrefix world)
    (hassignments : ∀ before after : Table, change.Applies before after →
      systemRows tablePrefix world .userRoles = before.rows →
      UniqueKeys assignmentKey before.rows → UniqueKeys assignmentKey after.rows)
    (hpermissions : ∀ before after : Table, change.Applies before after →
      systemRows tablePrefix world .tablePermissions = before.rows →
      UniqueKeys permissionKey before.rows → UniqueKeys permissionKey after.rows)
    (hnames : ∀ before after : Table, change.Applies before after → ∀ row ∈ after.rows,
      row ∈ before.rows ∨ ∀ name, row.cell (js "table_name") = .string name →
        isValidTableName unicode name = true) : KeyInvariant unicode tablePrefix world' := by
  constructor
  · rcases h.applies_or_eq .userRoles with heq | ⟨before, after, hbefore, hafter, happlies⟩
    · rw [heq]
      exact hinvariant.assignments
    · rw [hafter]
      exact hassignments before after happlies hbefore (hbefore ▸ hinvariant.assignments)
  · rcases h.applies_or_eq .tablePermissions with
      heq | ⟨before, after, hbefore, hafter, happlies⟩
    · rw [heq]
      exact hinvariant.permissions
    · rw [hafter]
      exact hpermissions before after happlies hbefore (hbefore ▸ hinvariant.permissions)
  · rcases h.applies_or_eq .tablePermissions with
      heq | ⟨before, after, hbefore, hafter, happlies⟩
    · rw [heq]
      exact hinvariant.names
    · intro row hrow name hname
      rw [hafter] at hrow
      rcases hnames before after happlies row hrow with hold | hvalid
      · rw [← hbefore] at hold
        exact hinvariant.names row hold name hname
      · exact hvalid name hname

/-- A new row keeps the invariant if its keys are not taken. -/
theorem preserves_insert {table : SystemTable} {row : Row} {world world' : World}
    (h : Changed tablePrefix table (.insert row) world world')
    (hinvariant : KeyInvariant unicode tablePrefix world)
    (hassignment : ∀ key, assignmentKey row = some key →
      ∀ other ∈ systemRows tablePrefix world .userRoles, assignmentKey other ≠ some key)
    (hpermission : ∀ key, permissionKey row = some key →
      ∀ other ∈ systemRows tablePrefix world .tablePermissions, permissionKey other ≠ some key)
    (hname : ∀ name, row.cell (js "table_name") = .string name →
      isValidTableName unicode name = true) : KeyInvariant unicode tablePrefix world' := by
  refine preserves_changed h hinvariant ?_ ?_ ?_
  · rintro before after ⟨hfresh, rfl⟩ hbefore hunique
    exact hunique.append_singleton (hbefore ▸ hassignment)
  · rintro before after ⟨hfresh, rfl⟩ hbefore hunique
    exact hunique.append_singleton (hbefore ▸ hpermission)
  · rintro before after ⟨hfresh, rfl⟩ other hother
    rw [Table.rows_insert, List.mem_append, List.mem_singleton] at hother
    rcases hother with hold | rfl
    · exact Or.inl hold
    · exact Or.inr hname

theorem preserves_remove {table : SystemTable} {row : Row} :
    Preserves (Changed tablePrefix table (.remove row))
      (KeyInvariant unicode tablePrefix) := by
  intro world world' h hinvariant
  have hfewer : ∀ before : Table, ∀ other ∈ (before.delete (.ofNat row.id)).rows,
      other ∈ before.rows := fun before other hother => (Table.mem_delete.mp hother).1
  refine preserves_changed h hinvariant ?_ ?_ ?_
  · rintro before after ⟨-, rfl⟩ - hunique
    exact hunique.of_subset (hfewer before)
  · rintro before after ⟨-, rfl⟩ - hunique
    exact hunique.of_subset (hfewer before)
  · rintro before after ⟨-, rfl⟩ other hother
    exact Or.inl (hfewer before other hother)

/-! ## Assignments -/

theorem assignmentKey_of_undefined {row : Row} (h : row.cell (js "user_id") = .undefined) :
    assignmentKey row = none := by
  rw [assignmentKey, h]

theorem permissionKey_of_undefined {row : Row} (h : row.cell (js "table_name") = .undefined) :
    permissionKey row = none := by
  cases hkey : permissionKey row with
  | none => rfl
  | some key =>
      have hname := ((permissionKey_eq_some_iff row key.1 key.2).mp hkey).2
      rw [h] at hname
      contradiction

/-- A new row without a user and without a table name has no key. -/
theorem preserves_insert_keyless {table : SystemTable} {row : Row} {world world' : World}
    (h : Changed tablePrefix table (.insert row) world world')
    (huser : row.cell (js "user_id") = .undefined)
    (hname : row.cell (js "table_name") = .undefined)
    (hinvariant : KeyInvariant unicode tablePrefix world) :
    KeyInvariant unicode tablePrefix world' := by
  refine preserves_insert h hinvariant ?_ ?_ ?_
  · intro key hkey
    rw [assignmentKey_of_undefined huser] at hkey
    contradiction
  · intro key hkey
    rw [permissionKey_of_undefined hname] at hkey
    contradiction
  · intro name hstring
    rw [hname] at hstring
    contradiction

/-- A new assignment of a role that the user does not have. -/
theorem preserves_insert_assignment {row : Row} {userId roleId : JsNumber}
    {world world' : World} (h : Changed tablePrefix .userRoles (.insert row) world world')
    (hassignment : IsAssignment userId roleId row)
    (hname : row.cell (js "table_name") = .undefined)
    (habsent : ∀ other ∈ systemRows tablePrefix world .userRoles,
      ¬ IsAssignment userId roleId other)
    (hinvariant : KeyInvariant unicode tablePrefix world) :
    KeyInvariant unicode tablePrefix world' := by
  have hrow := (assignmentKey_eq_some_iff row userId roleId).mpr hassignment
  refine preserves_insert h hinvariant ?_ ?_ ?_
  · intro key hkey other hother hsame
    obtain rfl : (userId, roleId) = key := Option.some.inj (hrow.symm.trans hkey)
    exact habsent other hother ((assignmentKey_eq_some_iff _ _ _).mp hsame)
  · intro key hkey
    rw [permissionKey_of_undefined hname] at hkey
    contradiction
  · intro name hstring
    rw [hname] at hstring
    contradiction

theorem preserves_inserted (userId roleId : JsNumber) :
    Preserves (Inserted tablePrefix userId roleId) (KeyInvariant unicode tablePrefix) := by
  rintro world world' ⟨habsent, row, hassignment, hname, hchanged⟩
  exact preserves_insert_assignment hchanged hassignment hname habsent

theorem preserves_assigned (userId roleId : JsNumber) :
    Preserves (Assigned tablePrefix userId roleId) (KeyInvariant unicode tablePrefix) :=
  (preserves_inserted userId roleId).andThen (preserves_cleared _)

theorem preserves_assignedSome (userId : JsNumber) (roleIds : List JsNumber) :
    Preserves (AssignedSome tablePrefix userId roleIds) (KeyInvariant unicode tablePrefix) :=
  preserves_unchanged.someOf fun roleId _ => preserves_assigned userId roleId

theorem preserves_removed (userId roleId : JsNumber) :
    Preserves (Removed tablePrefix userId roleId) (KeyInvariant unicode tablePrefix) := by
  rintro world world' ⟨row, middle, -, hchanged, hcleared⟩ hinvariant
  exact preserves_cleared _ _ _ hcleared (preserves_remove _ _ hchanged hinvariant)

/-! ## Permission rows -/

/-- The names in a dto are as `TABLE_NAME_PATTERN` wants them. -/
def ValidName (unicode : UnicodeClasses) (tableName : JsValue) : Prop :=
  ∀ name, tableName = .string name → isValidTableName unicode name = true

theorem matches_string {roleId : JsNumber} {name : JsString} {row : Row}
    (hvalid : isValidTableName unicode name = true) :
    Matches roleId (.string name) row ↔
      row.cell (js "role_id") = .number roleId ∧ row.cell (js "table_name") = .string name := by
  rw [Matches, satisfies_eqCondition_string (by decide) _ (trim_of_isValidTableName hvalid)]

theorem matches_undefined {roleId : JsNumber} {row : Row} (h : Matches roleId .undefined row) :
    row.cell (js "table_name") = .undefined := by
  have hcell : satisfies row ⟨fieldTitle (js "table_name"), js "eq", [.undefined]⟩ = true := h.2
  have hfield : fieldTitle (js "table_name") = js "table_name" := by decide
  rwa [satisfies_eq, hfield] at hcell

/-- A written row has the key that its dto names, and a valid table name. -/
theorem permissionKey_of_written {dto : SetTablePermissionsDto} {row : Row}
    {rest : List (JsString × JsonScalar)} (hfinite : ∃ x, dto.roleId = .finite x)
    (hcells : row.cells = toCells (permissionData dto) ++ rest)
    (hrest : dto.tableName = .undefined →
      ((rest.lookup (js "table_name")).map JsonScalar.toValue).getD .undefined = .undefined)
    {key : JsNumber × JsString} (hkey : permissionKey row = some key) :
    key.1 = dto.roleId ∧ dto.tableName = .string key.2 := by
  obtain ⟨hrole, hname⟩ := (permissionKey_eq_some_iff row key.1 key.2).mp hkey
  rw [cell_role_id_of_written hfinite hcells] at hrole
  refine ⟨(JsValue.number.inj hrole).symm, ?_⟩
  rcases table_name_of_written hfinite hcells hname with hname | ⟨hundefined, hname⟩
  · exact hname
  · rw [hrest hundefined] at hname
    contradiction

/-- A row that is overwritten keeps its keys. -/
theorem keyInvariant_overwritten {dto : SetTablePermissionsDto} {row : Row} {world world' : World}
    (hvalid : ValidName unicode dto.tableName) (hfinite : ∃ x, dto.roleId = .finite x)
    (hmatches : Matches dto.roleId dto.tableName row)
    (hchanged : Changed tablePrefix .tablePermissions (.patch row (permissionData dto)) world
      world')
    (hinvariant : KeyInvariant unicode tablePrefix world) :
    KeyInvariant unicode tablePrefix world' := by
  have hcells : (row.patch (permissionData dto)).cells =
      toCells (permissionData dto) ++ row.cells := rfl
  have hrest : dto.tableName = .undefined →
      ((row.cells.lookup (js "table_name")).map JsonScalar.toValue).getD .undefined =
        .undefined := by
    intro hundefined
    rw [hundefined] at hmatches
    have hcell := matches_undefined hmatches
    rwa [Row.cell_of_cells rfl (by decide)] at hcell
  have huser : (row.patch (permissionData dto)).cell (js "user_id") =
      row.cell (js "user_id") := by
    rw [cell_user_id_of_written hfinite hcells, Row.cell_of_cells rfl (by decide)]
  refine preserves_changed hchanged hinvariant ?_ ?_ ?_
  · rintro before after ⟨hrow, rfl⟩ - hunique
    refine hunique.replace hrow ?_ fun other => Table.replaced_of_mem_update hrow
    intro key hkey
    obtain ⟨huserId, hroleId⟩ := (assignmentKey_eq_some_iff _ key.1 key.2).mp hkey
    rw [huser] at huserId
    rw [cell_role_id_of_written hfinite hcells] at hroleId
    exact (assignmentKey_eq_some_iff _ key.1 key.2).mpr ⟨huserId, hmatches.1.trans hroleId⟩
  · rintro before after ⟨hrow, rfl⟩ - hunique
    refine hunique.replace hrow ?_ fun other => Table.replaced_of_mem_update hrow
    intro key hkey
    obtain ⟨hrole, hname⟩ := permissionKey_of_written hfinite hcells hrest hkey
    rw [hname, matches_string (hvalid _ hname), ← hrole] at hmatches
    exact (permissionKey_eq_some_iff _ key.1 key.2).mpr hmatches
  · rintro before after ⟨hrow, rfl⟩ other hother
    rcases Table.replaced_of_mem_update hrow hother with ⟨hold, -⟩ | rfl
    · exact Or.inl hold
    · refine Or.inr fun name hname => ?_
      rcases table_name_of_written hfinite hcells hname with hname | ⟨hundefined, hname⟩
      · exact hvalid name hname
      · rw [hrest hundefined] at hname
        contradiction

/-- A row that is inserted has a key that the lookup did not find. -/
theorem keyInvariant_inserted {dto : SetTablePermissionsDto} {row : Row} {world world' : World}
    (hvalid : ValidName unicode dto.tableName) (hfinite : ∃ x, dto.roleId = .finite x)
    (habsent : ∀ other ∈ systemRows tablePrefix world .tablePermissions,
      ¬ Matches dto.roleId dto.tableName other)
    (hcells : row.cells = toCells (permissionData dto))
    (hchanged : Changed tablePrefix .tablePermissions (.insert row) world world')
    (hinvariant : KeyInvariant unicode tablePrefix world) :
    KeyInvariant unicode tablePrefix world' := by
  have hcells : row.cells = toCells (permissionData dto) ++ [] := by
    rw [hcells, List.append_nil]
  have hkeyless := cell_user_id_of_written hfinite hcells
  refine preserves_insert hchanged hinvariant ?_ ?_ ?_
  · intro key hkey
    rw [assignmentKey_of_undefined hkeyless] at hkey
    contradiction
  · intro key hkey other hother hsame
    obtain ⟨hrole, hname⟩ := permissionKey_of_written hfinite hcells (fun _ => rfl) hkey
    apply habsent other hother
    rw [hname, matches_string (hvalid _ hname), ← hrole]
    exact (permissionKey_eq_some_iff _ key.1 key.2).mp hsame
  · intro name hname
    rcases table_name_of_written hfinite hcells hname with hname | ⟨-, hname⟩
    · exact hvalid name hname
    · contradiction

theorem preserves_upserted {dto : SetTablePermissionsDto}
    (hvalid : ValidName unicode dto.tableName) :
    Preserves (Upserted tablePrefix dto) (KeyInvariant unicode tablePrefix) := by
  rintro world world' ⟨hfinite, hwritten⟩ hinvariant
  rcases hwritten with ⟨row, hmatches, hchanged⟩ | ⟨habsent, row, hcells, hchanged⟩
  · exact keyInvariant_overwritten hvalid hfinite hmatches hchanged hinvariant
  · exact keyInvariant_inserted hvalid hfinite habsent hcells hchanged hinvariant

theorem preserves_permissionsSet {dto : SetTablePermissionsDto}
    (hvalid : ValidName unicode dto.tableName) :
    Preserves (PermissionsSet tablePrefix dto) (KeyInvariant unicode tablePrefix) :=
  (preserves_upserted hvalid).andThen (preserves_cleared none)

theorem preserves_permissionsSetSome {dtos : List SetTablePermissionsDto}
    (hvalid : ∀ dto ∈ dtos, ValidName unicode dto.tableName) :
    Preserves (PermissionsSetSome tablePrefix dtos) (KeyInvariant unicode tablePrefix) :=
  preserves_unchanged.someOf fun dto hmem => preserves_permissionsSet (hvalid dto hmem)

/-- Copied table names are stored ones. -/
theorem validName_of_copyDtos {world : World} (hinvariant : KeyInvariant unicode tablePrefix world)
    {sourceRoleId targetRoleId : JsNumber} {dto : SetTablePermissionsDto}
    (h : dto ∈ copyDtos tablePrefix world sourceRoleId targetRoleId) :
    ValidName unicode dto.tableName := by
  obtain ⟨row, hrow, rfl⟩ := List.mem_map.mp h
  intro name hname
  refine hinvariant.names row (List.mem_filter.mp hrow).1 name ?_
  rw [← hname]
  exact (get_flattenRecord (by decide) (by decide)).symm

theorem preserves_deletedFirst (roleId : JsNumber) (applied : Nat) :
    Preserves (DeletedFirst tablePrefix roleId applied) (KeyInvariant unicode tablePrefix) := by
  rintro world world' h ⟨hassignments, hpermissions, hnames⟩
  constructor
  · exact hassignments.of_subset fun _ => h.mem_systemRows
  · exact hpermissions.of_subset fun _ => h.mem_systemRows
  · exact fun row hrow => hnames row (h.mem_systemRows hrow)

/-! ## Users, administrators and the seeding -/

theorem preserves_assignedQuietly (userId : JsNumber) :
    Preserves (AssignedQuietly tablePrefix userId) (KeyInvariant unicode tablePrefix) :=
  (preserves_unchanged.or (Preserves.exists_index (preserves_inserted userId))).reflTransGen

theorem preserves_userInserted (row : Row) :
    Preserves (UserInserted tablePrefix row) (KeyInvariant unicode tablePrefix) := by
  rintro world world' ⟨huser, hname, hchanged⟩
  exact preserves_insert_keyless hchanged huser hname

theorem preserves_userCreated :
    Preserves (UserCreated tablePrefix) (KeyInvariant unicode tablePrefix) := by
  rintro world world' (h | ⟨row, middle, hinserted, hquiet⟩) hinvariant
  · exact preserves_unchanged _ _ h hinvariant
  · exact preserves_assignedQuietly _ _ _ hquiet
      (preserves_userInserted row _ _ hinserted hinvariant)

theorem preserves_seeded :
    Preserves (Seeded tablePrefix) (KeyInvariant unicode tablePrefix) := by
  refine (preserves_unchanged.or (Preserves.or ?_ ?_)).reflTransGen
  · rintro world world' ⟨row, huser, hname, hchanged⟩
    exact preserves_insert_keyless hchanged huser hname
  · rintro world world' ⟨roleId, table, hupserted⟩
    refine preserves_upserted ?_ world world' hupserted
    intro name hname
    obtain rfl : table.name = name := JsValue.string.inj hname
    exact SystemTable.isValidTableName_name unicode table

/-- No assignment refers to a user row that is new. -/
def FreshUsers (tablePrefix : JsString) (world world' : World) : Prop :=
  ∀ user ∈ systemRows tablePrefix world' .users, user ∉ systemRows tablePrefix world .users →
    ∀ row ∈ systemRows tablePrefix world .userRoles,
      row.cell (js "user_id") ≠ .number (.ofNat user.id)

theorem preserves_bootstrapped {dto : BootstrapAdminDto} {world world' : World}
    (h : Bootstrapped tablePrefix dto world world') (hfresh : FreshUsers tablePrefix world world')
    (hinvariant : KeyInvariant unicode tablePrefix world) :
    KeyInvariant unicode tablePrefix world' := by
  rcases h with h | ⟨user, -, -, role, -, -, hinserted⟩ | ⟨user, middle, hinserted, hrest⟩
  · exact preserves_unchanged _ _ h hinvariant
  · exact preserves_inserted _ _ _ _ hinserted hinvariant
  · have hmiddle := preserves_userInserted user _ _ hinserted hinvariant
    rcases hrest with hrest | ⟨row, roleId, hassignment, hname, hchanged⟩
    · exact preserves_unchanged _ _ hrest hmiddle
    · refine preserves_insert_assignment hchanged hassignment hname ?_ hmiddle
      obtain ⟨huserId, -, huserChanged⟩ := hinserted
      obtain ⟨hnew, hmem⟩ := huserChanged.inserted_mem
      rintro other hother ⟨hotherUser, -⟩
      rcases huserChanged.mem_insert hother with hold | rfl
      · exact hfresh user (hchanged.mem_of_insert hmem) hnew other hold hotherUser
      · rw [huserId] at hotherUser
        contradiction

/-! ## Runs -/

/-- The call is one that the unique keys are stated for, with valid table names. -/
def Call.Keyed (unicode : UnicodeClasses) : Call → Prop
  | .createRole _ => False
  | .deleteRole _ => False
  | .getUserPermissions _ => False
  | .setTablePermissions dto =>
      ∃ name, dto.tableName = .string name ∧ isValidTableName unicode name = true
  | .batchSetPermissions dto =>
      ∀ item ∈ dto.permissions, isValidTableName unicode item.tableName = true
  | _ => True

/-- The call may create a user. -/
def Call.createsUser : Call → Bool
  | .createLocalUser _ => true
  | .bootstrapAdmin _ _ _ => true
  | _ => false

/-- One call, successful or failing at any request.  NocoDB gives a new user an id
that no assignment refers to. -/
def KeyedStep (unicode : UnicodeClasses) (tablePrefix : JsString) (world world' : World) :
    Prop :=
  ∃ (call : Call) (succeeds : Bool), call.Keyed unicode ∧
    call.Performs tablePrefix true world succeeds world' ∧
    (call.createsUser = true → FreshUsers tablePrefix world world')

theorem preserves_keyedStep :
    Preserves (KeyedStep unicode tablePrefix) (KeyInvariant unicode tablePrefix) := by
  rintro world world' ⟨call, succeeds, hkeyed, hperforms, hfresh⟩ hinvariant
  have heffect := Call.effect_of_performs hperforms
  cases call with
  | createRole dto => exact hkeyed.elim
  | deleteRole roleId => exact hkeyed.elim
  | getUserPermissions userId => exact hkeyed.elim
  | setTablePermissions dto =>
      obtain ⟨name, hname, hvalid⟩ := hkeyed
      cases succeeds with
      | false => exact preserves_unchanged _ _ heffect hinvariant
      | true =>
          refine preserves_permissionsSet ?_ _ _ heffect hinvariant
          intro other hother
          obtain rfl : name = other := JsValue.string.inj (hname.symm.trans hother)
          exact hvalid
  | batchSetPermissions dto =>
      refine preserves_permissionsSetSome ?_ _ _ heffect hinvariant
      intro other hother name hname
      obtain ⟨item, hitem, rfl⟩ := List.mem_map.mp hother
      obtain rfl : item.tableName = name := JsValue.string.inj hname
      exact hkeyed item hitem
  | copyPermissions sourceRoleId targetRoleId =>
      exact preserves_permissionsSetSome (fun dto => validName_of_copyDtos hinvariant)
        _ _ heffect hinvariant
  | deleteRolePermissions roleId =>
      cases succeeds with
      | false =>
          obtain ⟨applied, hdeleted⟩ := heffect
          exact preserves_deletedFirst roleId applied _ _ hdeleted hinvariant
      | true =>
          exact (preserves_deletedFirst roleId _).andThen (preserves_cleared none) _ _ heffect
            hinvariant
  | assignRole dto =>
      cases succeeds with
      | false => exact preserves_unchanged _ _ heffect hinvariant
      | true => exact preserves_assigned _ _ _ _ heffect hinvariant
  | assignMultipleRoles dto => exact preserves_assignedSome _ _ _ _ heffect hinvariant
  | removeRole userId roleId =>
      cases succeeds with
      | false => exact preserves_unchanged _ _ heffect hinvariant
      | true => exact preserves_removed _ _ _ _ heffect hinvariant
  | createLocalUser dto => exact preserves_userCreated _ _ heffect hinvariant
  | bootstrapAdmin configuredToken dto bootstrapToken =>
      exact preserves_bootstrapped heffect (hfresh rfl) hinvariant
  | seedDefaultPermissions => exact preserves_seeded _ _ heffect hinvariant

theorem KeyInvariant.atMostOne_assignment {world : World}
    (h : KeyInvariant unicode tablePrefix world) (userId roleId : JsNumber) :
    AtMostOne (IsAssignment userId roleId) (systemRows tablePrefix world .userRoles) := by
  have hkey := h.assignments (userId, roleId)
  simp only [assignmentKey_eq_some_iff] at hkey
  exact hkey

/-- A successful `removeRole` leaves no assignment of the role if there was at most
one. -/
theorem not_isAssignment_of_removed {userId roleId : JsNumber} {world world' : World}
    (hone : AtMostOne (IsAssignment userId roleId) (systemRows tablePrefix world .userRoles))
    (h : Removed tablePrefix userId roleId world world') :
    ∀ row ∈ systemRows tablePrefix world' .userRoles, ¬ IsAssignment userId roleId row := by
  obtain ⟨row, middle, hassignment, hchanged, hcleared⟩ := h
  intro other hother hsame
  rw [hcleared.systemRows_eq] at hother
  obtain ⟨before, after, hbefore, hafter, hrow, rfl⟩ := hchanged.applies
  rw [hafter] at hother
  obtain ⟨hmem, hid⟩ := Table.mem_delete.mp hother
  rw [hbefore] at hone
  exact hid (congrArg Row.id (hone other hmem row hrow hsame hassignment))

/-- The rights of a role on a table: the union over all its permission rows. -/
def RoleAllows (tablePrefix : JsString) (world : World) (roleId : JsNumber) (table : JsString)
    (action : CrudAction) : Prop :=
  ∃ row ∈ systemRows tablePrefix world .tablePermissions,
    row.cell (js "role_id") = .number roleId ∧ row.cell (js "table_name") = .string table ∧
      (row.cell action.flag).truthy = true

instance (world : World) (roleId : JsNumber) (table : JsString) (action : CrudAction) :
    Decidable (RoleAllows tablePrefix world roleId table action) :=
  inferInstanceAs (Decidable (∃ row ∈ systemRows tablePrefix world .tablePermissions, _))

/-- A successful `setTablePermissions` leaves a row with the key and the flags of its
dto. -/
theorem exists_written_of_permissionsSet {dto : SetTablePermissionsDto} {world world' : World}
    (h : PermissionsSet tablePrefix dto world world') :
    (∃ x, dto.roleId = .finite x) ∧
      ∃ row ∈ systemRows tablePrefix world' .tablePermissions, ∃ rest,
        row.cells = toCells (permissionData dto) ++ rest := by
  obtain ⟨middle, ⟨hfinite, hwritten⟩, hcleared⟩ := h
  refine ⟨hfinite, ?_⟩
  rw [hcleared.systemRows_eq]
  rcases hwritten with ⟨row, -, hchanged⟩ | ⟨-, row, hcells, hchanged⟩
  · obtain ⟨before, after, -, hafter, hrow, rfl⟩ := hchanged.applies
    refine ⟨row.patch (permissionData dto), ?_, row.cells, rfl⟩
    rw [hafter]
    exact List.mem_map.mpr ⟨row, hrow, if_pos rfl⟩
  · exact ⟨row, hchanged.inserted_mem.2, [], by rw [hcells, List.append_nil]⟩

/-- A successful `setTablePermissions` makes the rights of the role on the table exactly
the flags of its dto if it leaves at most one row of them. -/
theorem roleAllows_of_permissionsSet {dto : SetTablePermissionsDto} {world world' : World}
    {name : JsString} (hname : dto.tableName = .string name)
    (hone : AtMostOne (fun row => permissionKey row = some (dto.roleId, name))
      (systemRows tablePrefix world' .tablePermissions))
    (h : PermissionsSet tablePrefix dto world world') (action : CrudAction) :
    RoleAllows tablePrefix world' dto.roleId name action ↔ dto.allows action = true := by
  obtain ⟨hfinite, written, hmem, rest, hcells⟩ := exists_written_of_permissionsSet h
  have hrole := cell_role_id_of_written hfinite hcells
  have htable := cell_table_name_of_written hname hfinite hcells
  have hflag := cell_flag_of_written hfinite hcells action
  constructor
  · rintro ⟨row, hrow, hroleRow, htableRow, htruthy⟩
    obtain rfl : row = written := by
      refine hone row hrow written hmem ?_ ?_
      · exact (permissionKey_eq_some_iff _ _ _).mpr ⟨hroleRow, htableRow⟩
      · exact (permissionKey_eq_some_iff _ _ _).mpr ⟨hrole, htable⟩
    rwa [hflag] at htruthy
  · intro hallows
    refine ⟨written, hmem, hrole, htable, ?_⟩
    rw [hflag]
    exact hallows

/-- Keys stay unique over sequential runs, so a successful `removeRole` leaves no row of
the assignment and a successful `setTablePermissions` makes the rights exactly the
given flags. -/
theorem keys_unique_of_run (unicode : UnicodeClasses) (tablePrefix : JsString)
    {first world : World} (hfirst : KeyInvariant unicode tablePrefix first)
    (hrun : Relation.ReflTransGen (KeyedStep unicode tablePrefix) first world) :
    KeyInvariant unicode tablePrefix world ∧
      (∀ userId roleId world',
        (Call.removeRole userId roleId).Performs tablePrefix true world true world' →
        ∀ row ∈ systemRows tablePrefix world' .userRoles, ¬ IsAssignment userId roleId row) ∧
      ∀ dto name world', dto.tableName = .string name →
        isValidTableName unicode name = true →
        (Call.setTablePermissions dto).Performs tablePrefix true world true world' →
        ∀ action, RoleAllows tablePrefix world' dto.roleId name action ↔
          dto.allows action = true := by
  have hinvariant := preserves_keyedStep.reflTransGen _ _ hrun hfirst
  refine ⟨hinvariant, ?_, ?_⟩
  · intro userId roleId world' hperforms
    exact not_isAssignment_of_removed (hinvariant.atMostOne_assignment userId roleId)
      (Call.effect_of_performs hperforms)
  · intro dto name world' hname hvalid hperforms
    have hstep : KeyedStep unicode tablePrefix world world' :=
      ⟨.setTablePermissions dto, true, ⟨name, hname, hvalid⟩, hperforms, fun h => by cases h⟩
    exact roleAllows_of_permissionsSet hname
      ((preserves_keyedStep _ _ hstep hinvariant).permissions _)
      (Call.effect_of_performs hperforms)

end

theorem keyInvariant_readerWorld : KeyInvariant .ascii [] readerWorld where
  assignments := UniqueKeys.singleton _
  permissions := UniqueKeys.singleton _
  names := by
    intro row hrow name hname
    obtain rfl := List.eq_of_mem_singleton hrow
    obtain rfl := JsValue.string.inj hname
    decide

theorem keys_unique_after_assignRole :
    ∃ world, Relation.ReflTransGen (KeyedStep .ascii []) readerWorld world ∧
      KeyInvariant .ascii [] world ∧
      (∀ userId roleId world',
        (Call.removeRole userId roleId).Performs [] true world true world' →
        ∀ row ∈ systemRows [] world' .userRoles, ¬ IsAssignment userId roleId row) ∧
      ∀ dto name world', dto.tableName = .string name →
        isValidTableName .ascii name = true →
        (Call.setTablePermissions dto).Performs [] true world true world' →
        ∀ action, RoleAllows [] world' dto.roleId name action ↔ dto.allows action = true := by
  have hstep : KeyedStep .ascii [] readerWorld
      (settle true (assignRole [] ⟨.ofNat 7, .ofNat 4⟩) (prompt 5) readerWorld) :=
    ⟨.assignRole ⟨.ofNat 7, .ofNat 4⟩, true, trivial, completes_of_run (by decide),
      fun h => by cases h⟩
  exact ⟨_, .single hstep,
    keys_unique_of_run .ascii [] keyInvariant_readerWorld (.single hstep)⟩

end Runs
end NocoMiddleware
