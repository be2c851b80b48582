import NocoMiddleware.Runs.PermissionCopies
import NocoMiddleware.Runs.PolicyEdits

/-!
# The scripts of the calls

Every call of the services has a script, a list of edits of the policy: one edit for each write
that it makes if all goes well.  A call that succeeds has done its whole script; a call that
fails, at whichever request, has done the first edits of it.
-/

namespace NocoMiddleware
namespace Runs

open NocoMiddleware.Js NocoMiddleware.Filter NocoMiddleware.Tables NocoMiddleware.Store
open NocoMiddleware.Permissions NocoMiddleware.Users NocoMiddleware.Roles NocoMiddleware.Auth
open NocoMiddleware.Foundation

/-- The tables that a role has rights on, each of them once. -/
def ListsTables (policy : AccessPolicy) (roleId : JsNumber) (tables : List JsString) : Prop :=
  tables.Nodup ∧ ∀ name, name ∈ tables ↔ (policy.rights roleId name).isSome = true

/-- The user id of a row that `users` does not hold yet. -/
def IsNewUser (tablePrefix : JsString) (world : World) (userId : JsNumber) : Prop :=
  ∀ user ∈ systemRows tablePrefix world .users, JsNumber.ofNat user.id ≠ userId

/-- The edits that a call makes if all goes well. -/
def Call.Script (tablePrefix : JsString) (world : World) : Call → List AccessEdit → Prop
  | .createRole _, script =>
      ∃ roleId, roleId ∉ (policyOf tablePrefix world).roles ∧ script = [.addRole roleId]
  | .deleteRole roleId, script => script = [.dropRole roleId]
  | .setTablePermissions dto, script =>
      ∃ name, dto.tableName = .string name ∧ script = [.setRights dto.roleId name (dtoRights dto)]
  | .batchSetPermissions dto, script =>
      script = dto.permissions.map fun item =>
        .setRights dto.roleId item.tableName (dtoRights (batchDto dto.roleId item))
  | .copyPermissions sourceRoleId targetRoleId, script =>
      ∃ tables, ListsTables (policyOf tablePrefix world) sourceRoleId tables ∧
        script = tables.map fun name => .setRights targetRoleId name
          (((policyOf tablePrefix world).rights sourceRoleId name).getD ∅)
  | .deleteRolePermissions roleId, script =>
      ∃ tables, ListsTables (policyOf tablePrefix world) roleId tables ∧
        script = tables.map (.dropRights roleId)
  | .assignRole dto, script => script = [.assign dto.userId dto.roleId]
  | .assignMultipleRoles dto, script => script = dto.roleIds.map (.assign dto.userId)
  | .removeRole userId roleId, script => script = [.unassign userId roleId]
  | .createLocalUser _, script =>
      ∃ userId, ∃ roleIds : List JsNumber, IsNewUser tablePrefix world userId ∧
        script = roleIds.map (.assign userId)
  | .bootstrapAdmin _ dto _, script =>
      ∃ userId, ∃ roleIds : List JsNumber, (IsNewUser tablePrefix world userId ∨
          ∃ user ∈ systemRows tablePrefix world .users,
            IsNamed (js "username") dto.username user ∧ .ofNat user.id = userId) ∧
        roleIds.length ≤ 1 ∧ script = roleIds.map (.assign userId)
  | .seedDefaultPermissions, _ => False
  | .getUserPermissions _, script => script = []

/-- The call is one of a running server, with table names as its dto wants them. -/
def Call.Accepted (unicode : UnicodeClasses) : Call → Prop
  | .setTablePermissions dto =>
      ∃ name, dto.tableName = .string name ∧ isValidTableName unicode name = true
  | .batchSetPermissions dto =>
      ∀ item ∈ dto.permissions, isValidTableName unicode item.tableName = true
  | .seedDefaultPermissions => False
  | _ => True

/-- A call that succeeds has done its script, and one that fails the first edits of it. -/
def Follows (unicode : UnicodeClasses) (tablePrefix : JsString) (script : List AccessEdit)
    (succeeds : Bool) (world world' : World) : Prop :=
  ∃ completed rest, script = completed ++ rest ∧ (succeeds = true → rest = []) ∧
    Simulates unicode tablePrefix world completed world'

section

variable {unicode : UnicodeClasses} {tablePrefix : JsString} {faults succeeds : Bool}
  {world middle world' : World} {script : List AccessEdit}

theorem Simulates.follows (h : Simulates unicode tablePrefix world script world') :
    Follows unicode tablePrefix script succeeds world world' :=
  ⟨script, [], (List.append_nil _).symm, fun _ => rfl, h⟩

/-- A call that fails without a write. -/
theorem follows_unchanged (h : WellKept unicode tablePrefix world) (script : List AccessEdit)
    (hunchanged : Unchanged world world') :
    Follows unicode tablePrefix script false world world' :=
  ⟨[], script, rfl, fun hfalse => (by cases hfalse), .unchanged h hunchanged⟩

/-- A call that fails after the edits for the first elements of a list. -/
theorem follows_of_append {α : Type} {entry : α → AccessEdit} {all completed rest : List α}
    (hsplit : all = completed ++ rest)
    (hdone : Simulates unicode tablePrefix world (completed.map entry) world') :
    Follows unicode tablePrefix (all.map entry) false world world' := by
  refine ⟨completed.map entry, rest.map entry, ?_, fun hfalse => (by cases hfalse), hdone⟩
  rw [hsplit, List.map_append]

/-! ## Lists of permissions -/

/-- A dto with a valid name addresses the row of the name. -/
theorem addresses_of_set {dto : SetTablePermissionsDto} {name : JsString}
    (hname : dto.tableName = .string name) (hvalid : isValidTableName unicode name = true)
    (hset : PermissionsSet tablePrefix dto world world') : Addresses dto.roleId dto name :=
  ⟨rfl, hset.choose_spec.1.1, hname, trim_of_isValidTableName hvalid⟩

/-- A batch does an edit for each item. -/
theorem wp_batchSetPermissions_follows {dto : BatchSetPermissionsDto}
    (h : WellKept unicode tablePrefix world)
    (hnames : ∀ item ∈ dto.permissions, isValidTableName unicode item.tableName = true) :
    wp (nocodb faults).contract (batchSetPermissions tablePrefix dto)
      (fun result => Follows unicode tablePrefix
        (dto.permissions.map fun item =>
          .setRights dto.roleId item.tableName (dtoRights (batchDto dto.roleId item)))
        result.isOk world) world := by
  rw [batchSetPermissions, wp_bind]
  -- the items that are done, and those that remain
  apply wp_foldlM (fun _ remaining world' => ∃ completed,
    dto.permissions = completed ++ remaining ∧
      Simulates unicode tablePrefix world (completed.map fun item =>
        .setRights dto.roleId item.tableName (dtoRights (batchDto dto.roleId item))) world')
  · rintro results item remaining w₁ ⟨completed, hsplit, hdone⟩
    rw [wp_bind]
    apply wp_mono wp_setTablePermissions
    intro result w₂ h₂
    cases result with
    | error exception => exact follows_of_append hsplit (hdone.thenUnchanged h₂)
    | ok record =>
        have hset : PermissionsSet tablePrefix (batchDto dto.roleId item) w₁ w₂ := h₂
        have hvalid : isValidTableName unicode item.tableName = true := by
          apply hnames
          rw [hsplit]
          exact List.mem_append_right _ List.mem_cons_self
        refine ⟨completed ++ [item], ?_, ?_⟩
        · rw [List.append_assoc, List.singleton_append, hsplit]
        · rw [List.map_append]
          exact hdone.trans
            (simulates_permissionsSet hdone.kept (addresses_of_set rfl hvalid hset) hvalid hset)
  · rintro results w₁ ⟨completed, hsplit, hdone⟩
    rw [List.append_nil] at hsplit
    rw [hsplit]
    exact hdone.follows
  · exact ⟨[], rfl, .unchanged h (Unchanged.refl world)⟩

theorem dtoRights_copyDto (targetRoleId : JsNumber) (row : Row) :
    dtoRights (copyDto targetRoleId (flattenRecord none row)) = rowRights row := by
  apply Set.ext
  intro action
  show (copyDto targetRoleId (flattenRecord none row)).allows action = true ↔ _
  have hallows : (copyDto targetRoleId (flattenRecord none row)).allows action =
      (row.cell action.flag).truthy := by
    have hzero : (copyDto (.ofNat 0) (flattenRecord none row)).allows action =
        (row.cell action.flag).truthy := allows_copyDto row action
    rw [← hzero]
    cases action <;> rfl
  rw [hallows]
  rfl

/-- A copy does an edit for each table of the source role. -/
theorem wp_copyPermissions_follows {sourceRoleId targetRoleId : JsNumber}
    (h : WellKept unicode tablePrefix world) :
    wp (nocodb faults).contract (copyPermissions tablePrefix sourceRoleId targetRoleId)
      (fun result => Follows unicode tablePrefix
        ((rolePermissions tablePrefix world sourceRoleId).map fun row =>
          .setRights targetRoleId (permissionTable row) (rowRights row))
        result.isOk world) world := by
  apply wp_copyPermissions_loop (fun copied world' =>
    (∃ rest, rolePermissions tablePrefix world sourceRoleId = copied ++ rest) ∧
      Simulates unicode tablePrefix world (copied.map fun row =>
        .setRights targetRoleId (permissionTable row) (rowRights row)) world')
  · exact fun exception world' hunchanged => follows_unchanged h _ hunchanged
  · exact fun world' hunchanged => ⟨⟨_, rfl⟩, .unchanged h hunchanged⟩
  · rintro copied row remaining middle world' hsplit ⟨-, hdone⟩ hset
    refine ⟨⟨remaining, by rw [hsplit, List.append_assoc, List.singleton_append]⟩, ?_⟩
    have hrow : row ∈ rolePermissions tablePrefix world sourceRoleId := by
      rw [hsplit]
      exact List.mem_append_right _ List.mem_cons_self
    obtain ⟨hmem, hkey⟩ := (mem_rolePermissions_iff h).mp hrow
    obtain ⟨owner, name, hnameKey, hvalid⟩ := h.permitted row hmem
    rw [← permissionTable_of_key hnameKey] at hvalid
    have hname : (copyDto targetRoleId (flattenRecord none row)).tableName =
        .string (permissionTable row) := by
      have hzero : (copyDto (.ofNat 0) (flattenRecord none row)).tableName =
          row.cell (js "table_name") := tableName_copyDto row
      rw [← ((permissionKey_eq_some_iff row _ _).mp hkey).2]
      exact hzero
    have hstep := simulates_permissionsSet hdone.kept (addresses_of_set hname hvalid hset) hvalid
      hset
    rw [dtoRights_copyDto] at hstep
    rw [List.map_append]
    exact hdone.trans hstep
  · rintro copied exception middle world' ⟨⟨rest, hsplit⟩, hdone⟩ hunchanged
    exact follows_of_append hsplit (hdone.thenUnchanged hunchanged)
  · rintro world' ⟨-, hdone⟩
    exact hdone.follows

/-- The copies of the rows are the rights of the source role on its tables. -/
theorem copyScript_eq (h : WellKept unicode tablePrefix world)
    (sourceRoleId targetRoleId : JsNumber) :
    (rolePermissions tablePrefix world sourceRoleId).map
        (fun row => .setRights targetRoleId (permissionTable row) (rowRights row)) =
      (listedTables tablePrefix world sourceRoleId).map fun name =>
        (.setRights targetRoleId name
          (((policyOf tablePrefix world).rights sourceRoleId name).getD ∅) : AccessEdit) := by
  rw [listedTables, List.map_map]
  apply List.map_congr_left
  intro row hrow
  obtain ⟨hmem, hkey⟩ := (mem_rolePermissions_iff h).mp hrow
  have hrights : (policyOf tablePrefix world).rights sourceRoleId (permissionTable row) =
      some (rowRights row) := (rights_policyOf h.permissions).mpr ⟨row, hmem, hkey, rfl⟩
  show _ = PolicyEdit.setRights _ _ (Option.getD _ ∅)
  rw [hrights]
  rfl

/-! ## Lists of assignments -/

/-- One round of the loop assigns the role, finds it assigned, or changes nothing. -/
theorem wp_assignNextRole_simulates {userId roleId : JsNumber} {results : List NocoRecord}
    (h : WellKept unicode tablePrefix world) :
    wp (nocodb faults).contract (assignNextRole tablePrefix userId results roleId)
      (fun result world' => match result with
        | .ok _ => Simulates unicode tablePrefix world [.assign userId roleId] world'
        | .error _ => Unchanged world world') world := by
  rw [assignNextRole, wp_tryCatch, wp_bind]
  apply wp_mono wp_assignRole_outcome
  intro result w₁ h₁
  cases result with
  | ok record => exact simulates_assigned h h₁
  | error exception =>
      obtain ⟨hunchanged, hheld⟩ := h₁
      show wp _ (if exception.isConflict then _ else _) _ w₁
      by_cases hconflict : exception.isConflict = true
      · rw [if_pos hconflict]
        exact simulates_held h (hheld hconflict) hunchanged
      · rw [if_neg hconflict]
        exact hunchanged

/-- Assigning several roles does an edit for each of them. -/
theorem wp_assignMultipleRoles_follows {dto : AssignMultipleRolesDto}
    (h : WellKept unicode tablePrefix world) :
    wp (nocodb faults).contract (assignMultipleRoles tablePrefix dto)
      (fun result => Follows unicode tablePrefix (dto.roleIds.map (.assign dto.userId))
        result.isOk world) world := by
  rw [assignMultipleRoles, wp_bind]
  apply wp_foldlM (fun _ remaining world' => ∃ completed, dto.roleIds = completed ++ remaining ∧
    Simulates unicode tablePrefix world (completed.map (.assign dto.userId)) world')
  · rintro results roleId remaining w₁ ⟨completed, hsplit, hdone⟩
    apply wp_mono (wp_assignNextRole_simulates hdone.kept)
    intro result w₂ h₂
    cases result with
    | error exception => exact follows_of_append hsplit (hdone.thenUnchanged h₂)
    | ok next =>
        refine ⟨completed ++ [roleId], ?_, ?_⟩
        · rw [List.append_assoc, List.singleton_append, hsplit]
        · rw [List.map_append]
          exact hdone.trans h₂
  · rintro results w₁ ⟨completed, hsplit, hdone⟩
    rw [List.append_nil] at hsplit
    rw [hsplit]
    exact hdone.follows
  · exact ⟨[], rfl, .unchanged h (Unchanged.refl world)⟩

/-! ## New users -/

/-- Roles that are assigned to a new user, whichever they are. -/
theorem simulates_assignedQuietly {userId : JsNumber} (h : WellKept unicode tablePrefix world)
    (hquiet : AssignedQuietly tablePrefix userId world world') :
    ∃ roleIds : List JsNumber,
      Simulates unicode tablePrefix world (roleIds.map (.assign userId)) world' := by
  induction hquiet with
  | refl => exact ⟨[], .unchanged h (Unchanged.refl world)⟩
  | tail _ hstep ih =>
      obtain ⟨roleIds, hdone⟩ := ih
      rcases hstep with hunchanged | ⟨roleId, hinserted⟩
      · exact ⟨roleIds, hdone.thenUnchanged hunchanged⟩
      · refine ⟨roleIds ++ [roleId], ?_⟩
        rw [List.map_append]
        exact hdone.trans (simulates_inserted hdone.kept hinserted)

/-- The row of a new user is no edit, and its id is a new one. -/
theorem simulates_userInserted {row : Row} (h : WellKept unicode tablePrefix world)
    (hinserted : UserInserted tablePrefix row world world') :
    IsNewUser tablePrefix world (.ofNat row.id) ∧
      Simulates unicode tablePrefix world [] world' := by
  obtain ⟨-, -, hchanged⟩ := hinserted
  refine ⟨?_, simulates_user h hchanged⟩
  intro user huser hid
  exact hchanged.id_ne_of_insert huser (JsNumber.ofNat_inj.mp hid)

/-- Creating a user assigns roles to the new user only. -/
theorem follows_userCreated {dto : ProvisionUserDto} (h : WellKept unicode tablePrefix world)
    (hcreated : UserCreated tablePrefix world world') :
    ∃ script, (Call.createLocalUser dto).Script tablePrefix world script ∧
      Follows unicode tablePrefix script succeeds world world' := by
  rcases hcreated with hunchanged | ⟨row, middle, hinserted, hquiet⟩
  · -- some id is not taken
    obtain ⟨key, hkey⟩ := Infinite.exists_notMem_finset
      ((systemRows tablePrefix world .users).map Row.id).toFinset
    rw [List.mem_toFinset] at hkey
    refine ⟨[], ⟨.ofNat key, [], ?_, rfl⟩, (Simulates.unchanged h hunchanged).follows⟩
    intro user huser hid
    exact hkey (JsNumber.ofNat_inj.mp hid ▸ List.mem_map_of_mem huser)
  · obtain ⟨hnew, hfirst⟩ := simulates_userInserted h hinserted
    obtain ⟨roleIds, hroles⟩ := simulates_assignedQuietly hfirst.kept hquiet
    exact ⟨_, ⟨.ofNat row.id, roleIds, hnew, rfl⟩, (hfirst.trans hroles).follows⟩

/-- The bootstrap assigns at most one role, to the named user or to a new one. -/
theorem follows_bootstrapped {configuredToken bootstrapToken : Option JsString}
    {dto : BootstrapAdminDto} (h : WellKept unicode tablePrefix world)
    (hbootstrapped : Bootstrapped tablePrefix dto world world')
    (hfresh : FreshUsers tablePrefix world world') :
    ∃ script, (Call.bootstrapAdmin configuredToken dto bootstrapToken).Script tablePrefix world
        script ∧
      Follows unicode tablePrefix script succeeds world world' := by
  rcases hbootstrapped with hunchanged | ⟨user, huser, hname, role, -, -, hinserted⟩ |
    ⟨user, middle, hinserted, hrest⟩
  · obtain ⟨key, hkey⟩ := Infinite.exists_notMem_finset
      ((systemRows tablePrefix world .users).map Row.id).toFinset
    rw [List.mem_toFinset] at hkey
    refine ⟨[], ⟨.ofNat key, [], Or.inl ?_, by decide, rfl⟩,
      (Simulates.unchanged h hunchanged).follows⟩
    intro user huser hid
    exact hkey (JsNumber.ofNat_inj.mp hid ▸ List.mem_map_of_mem huser)
  · exact ⟨[.assign (.ofNat user.id) (.ofNat role.id)],
      ⟨.ofNat user.id, [.ofNat role.id], Or.inr ⟨user, huser, hname, rfl⟩, le_rfl, rfl⟩,
      (simulates_inserted h hinserted).follows⟩
  · obtain ⟨hnew, hfirst⟩ := simulates_userInserted h hinserted
    rcases hrest with hunchanged | ⟨row, roleId, hassignment, -, hchanged⟩
    · exact ⟨[], ⟨.ofNat user.id, [], Or.inl hnew, Nat.zero_le _, rfl⟩,
        (hfirst.thenUnchanged hunchanged).follows⟩
    · refine ⟨[.assign (.ofNat user.id) roleId],
        ⟨.ofNat user.id, [roleId], Or.inl hnew, le_rfl, rfl⟩,
        (hfirst.trans (simulates_assignment_inserted hfirst.kept hassignment ?_ hchanged)).follows⟩
      -- no assignment refers to the new user
      obtain ⟨-, -, huserChanged⟩ := hinserted
      obtain ⟨hnotMem, hmem⟩ := huserChanged.inserted_mem
      rintro other hother ⟨hotherUser, -⟩
      rw [huserChanged.systemRows_of_ne h.distinct (by decide)] at hother
      exact hfresh user (hchanged.mem_of_insert hmem) hnotMem other hother hotherUser

/-! ## All calls -/

theorem Completes.follows {α : Type} {program : Service α}
    (h : Completes faults program world succeeds world')
    (hspec : wp (nocodb faults).contract program
      (fun result => Follows unicode tablePrefix script result.isOk world) world) :
    Follows unicode tablePrefix script succeeds world world' := by
  obtain ⟨result, hexec, rfl⟩ := h
  exact wp_sound hspec hexec

/-- Every call follows its script. -/
theorem Call.follows {call : Call} (h : WellKept unicode tablePrefix world)
    (haccepted : call.Accepted unicode)
    (hperforms : call.Performs tablePrefix faults world succeeds world')
    (hfresh : call.createsUser = true → FreshUsers tablePrefix world world') :
    ∃ script, call.Script tablePrefix world script ∧
      Follows unicode tablePrefix script succeeds world world' := by
  have heffect := Call.effect_of_performs hperforms
  cases call with
  | seedDefaultPermissions => exact haccepted.elim
  | createRole dto =>
      cases succeeds with
      | true =>
          obtain ⟨row, hchanged⟩ := heffect
          obtain ⟨hnew, hdone⟩ := simulates_role_inserted h hchanged
          exact ⟨_, ⟨_, hnew, rfl⟩, hdone.follows⟩
      | false =>
          obtain ⟨key, hkey⟩ := Infinite.exists_notMem_finset
            ((systemRows tablePrefix world .roles).map Row.id).toFinset
          rw [List.mem_toFinset] at hkey
          refine ⟨_, ⟨.ofNat key, ?_, rfl⟩, follows_unchanged h _ heffect⟩
          rintro ⟨row, hrow, hid⟩
          exact hkey (JsNumber.ofNat_inj.mp hid ▸ List.mem_map_of_mem hrow)
  | deleteRole roleId =>
      have hremoved := Completes.of_wp hperforms wp_deleteRole_removed
      refine ⟨_, rfl, ?_⟩
      cases succeeds with
      | true =>
          obtain ⟨row, middle, rfl, hchanged, hcleared⟩ := hremoved
          exact ((simulates_role_removed h hchanged).thenCleared hcleared).follows
      | false => exact follows_unchanged h _ hremoved
  | setTablePermissions dto =>
      obtain ⟨name, hname, hvalid⟩ := haccepted
      refine ⟨_, ⟨name, hname, rfl⟩, ?_⟩
      cases succeeds with
      | true =>
          exact (simulates_permissionsSet h (addresses_of_set hname hvalid heffect) hvalid
            heffect).follows
      | false => exact follows_unchanged h _ heffect
  | batchSetPermissions dto =>
      exact ⟨_, rfl, Completes.follows hperforms (wp_batchSetPermissions_follows h haccepted)⟩
  | copyPermissions sourceRoleId targetRoleId =>
      have hfollows := Completes.follows hperforms (wp_copyPermissions_follows h)
      rw [copyScript_eq h] at hfollows
      exact ⟨_, ⟨_, listedTables_spec h sourceRoleId, rfl⟩, hfollows⟩
  | deleteRolePermissions roleId =>
      refine ⟨_, ⟨_, listedTables_spec h roleId, rfl⟩, ?_⟩
      cases succeeds with
      | true =>
          obtain ⟨middle, hdeleted, hcleared⟩ := heffect
          have hdone := (simulates_deletedFirst h hdeleted).thenCleared hcleared
          rw [List.take_of_length_le (by rw [listedTables, List.length_map])] at hdone
          exact hdone.follows
      | false =>
          obtain ⟨applied, hdeleted⟩ := heffect
          exact follows_of_append (List.take_append_drop applied _).symm
            (simulates_deletedFirst h hdeleted)
  | assignRole dto =>
      refine ⟨_, rfl, ?_⟩
      cases succeeds with
      | true => exact (simulates_assigned h heffect).follows
      | false => exact follows_unchanged h _ heffect
  | assignMultipleRoles dto =>
      exact ⟨_, rfl, Completes.follows hperforms (wp_assignMultipleRoles_follows h)⟩
  | removeRole userId roleId =>
      refine ⟨_, rfl, ?_⟩
      cases succeeds with
      | true => exact (simulates_removed h heffect).follows
      | false => exact follows_unchanged h _ heffect
  | createLocalUser dto =>
      apply follows_userCreated h
      cases succeeds <;> exact heffect
  | bootstrapAdmin configuredToken dto bootstrapToken =>
      apply follows_bootstrapped h _ (hfresh rfl)
      cases succeeds <;> exact heffect
  | getUserPermissions userId =>
      have hloaded : Loaded tablePrefix userId world world' := by
        cases succeeds <;> exact heffect
      refine ⟨_, rfl, ?_⟩
      rcases hloaded with hunchanged | ⟨value, -, htables, hrows, -, -⟩
      · exact (Simulates.unchanged h hunchanged).follows
      · apply (Simulates.of_systemRows_eq h htables _).follows
        intro table
        simp only [systemRows, htables, hrows]

end

end Runs
end NocoMiddleware
