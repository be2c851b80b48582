import NocoMiddleware.Auth.BootstrapAdminService
import NocoMiddleware.Permissions.PermissionSemantics
import NocoMiddleware.Roles.RolesService
import NocoMiddleware.Store.DatabaseInitialization

/-!
# Calls of the services

One call of a service from start to end, without another call in between.
`Call.Performs` runs the code; `Call.Effect` is what the call changes.  The code
refines the effects, and the invariants of runs are proved of the effects.
-/

namespace NocoMiddleware
namespace Runs

open NocoMiddleware.Js NocoMiddleware.Tables NocoMiddleware.Store NocoMiddleware.Permissions
open NocoMiddleware.Users NocoMiddleware.Roles NocoMiddleware.Auth NocoMiddleware.Foundation

/-- The calls that read or write the system tables. -/
inductive Call where
  | createRole (dto : CreateRoleDto)
  | deleteRole (roleId : JsNumber)
  | setTablePermissions (dto : SetTablePermissionsDto)
  | batchSetPermissions (dto : BatchSetPermissionsDto)
  | copyPermissions (sourceRoleId targetRoleId : JsNumber)
  | deleteRolePermissions (roleId : JsNumber)
  | assignRole (dto : AssignRoleDto)
  | assignMultipleRoles (dto : AssignMultipleRolesDto)
  | removeRole (userId roleId : JsNumber)
  | createLocalUser (dto : ProvisionUserDto)
  | bootstrapAdmin (configuredToken : Option JsString) (dto : BootstrapAdminDto)
      (bootstrapToken : Option JsString)
  | seedDefaultPermissions
  | getUserPermissions (userId : JsNumber)

/-- A program runs to its end, with a result or with an exception. -/
def Completes {α : Type} (faults : Bool) (program : Service α) (world : World)
    (succeeds : Bool) (world' : World) : Prop :=
  ∃ result, Exec (nocodb faults).contract program world result world' ∧
    result.isOk = succeeds

/-- The execution of the code of a call. -/
def Call.Performs (tablePrefix : JsString) (faults : Bool) :
    Call → World → Bool → World → Prop
  | .createRole dto => Completes faults (Roles.createRole tablePrefix dto)
  | .deleteRole roleId => Completes faults (Roles.deleteRole tablePrefix roleId)
  | .setTablePermissions dto => Completes faults (Permissions.setTablePermissions tablePrefix dto)
  | .batchSetPermissions dto => Completes faults (Permissions.batchSetPermissions tablePrefix dto)
  | .copyPermissions sourceRoleId targetRoleId =>
      Completes faults (Permissions.copyPermissions tablePrefix sourceRoleId targetRoleId)
  | .deleteRolePermissions roleId =>
      Completes faults (Permissions.deleteRolePermissions tablePrefix roleId)
  | .assignRole dto => Completes faults (Users.assignRole tablePrefix dto)
  | .assignMultipleRoles dto => Completes faults (Users.assignMultipleRoles tablePrefix dto)
  | .removeRole userId roleId => Completes faults (Users.removeRole tablePrefix userId roleId)
  | .createLocalUser dto => Completes faults (Auth.createLocalUser tablePrefix dto)
  | .bootstrapAdmin configuredToken dto bootstrapToken =>
      Completes faults (Auth.bootstrapAdmin tablePrefix configuredToken dto bootstrapToken)
  | .seedDefaultPermissions => Completes faults (Store.seedDefaultPermissions tablePrefix)
  | .getUserPermissions userId =>
      Completes faults (Permissions.getUserPermissions tablePrefix userId)

/-- A load may cache what the system tables grant. -/
def Loaded (tablePrefix : JsString) (userId : JsNumber) (world world' : World) : Prop :=
  Unchanged world world' ∨
    ∃ value : UserPermissions,
      (∀ table action, value.allows table action = true ↔
        Grants tablePrefix world userId table action) ∧
      world'.tables = world.tables ∧ world'.rows = world.rows ∧ world.clock ≤ world'.clock ∧
      world'.cache = world.cache.cachePermissions world'.clock userId value

/-- A load changes the cache only. -/
theorem loaded_of_reads {tablePrefix : JsString} {property : World → Prop}
    (h : ReadsSystemRows tablePrefix property) (userId : JsNumber) :
    Preserves (Loaded tablePrefix userId) property := by
  rintro world world' (hunchanged | ⟨value, -, htables, hrows, -, -⟩)
  · exact h.unchanged world world' hunchanged
  · apply h world world'
    intro table
    simp only [systemRows, htables, hrows]

/-- What a call changes, by whether it succeeds. -/
def Call.Effect (tablePrefix : JsString) : Call → World → Bool → World → Prop
  | .createRole _, world, true, world' =>
      ∃ row, Changed tablePrefix .roles (.insert row) world world'
  | .deleteRole _, world, true, world' =>
      ∃ row middle, Changed tablePrefix .roles (.remove row) world middle ∧
        Cleared none middle world'
  | .setTablePermissions dto, world, true, world' => PermissionsSet tablePrefix dto world world'
  | .batchSetPermissions dto, world, _, world' =>
      PermissionsSetSome tablePrefix (dto.permissions.map (batchDto dto.roleId)) world world'
  | .copyPermissions sourceRoleId targetRoleId, world, _, world' =>
      PermissionsSetSome tablePrefix (copyDtos tablePrefix world sourceRoleId targetRoleId)
        world world'
  | .deleteRolePermissions roleId, world, true, world' =>
      ∃ middle,
        DeletedFirst tablePrefix roleId (rolePermissions tablePrefix world roleId).length
          world middle ∧
        Cleared none middle world'
  | .deleteRolePermissions roleId, world, false, world' =>
      ∃ applied, DeletedFirst tablePrefix roleId applied world world'
  | .assignRole dto, world, true, world' =>
      Assigned tablePrefix dto.userId dto.roleId world world'
  | .assignMultipleRoles dto, world, _, world' =>
      AssignedSome tablePrefix dto.userId dto.roleIds world world'
  | .removeRole userId roleId, world, true, world' =>
      Removed tablePrefix userId roleId world world'
  | .createLocalUser _, world, _, world' => UserCreated tablePrefix world world'
  | .bootstrapAdmin _ dto _, world, _, world' => Bootstrapped tablePrefix dto world world'
  | .seedDefaultPermissions, world, _, world' => Seeded tablePrefix world world'
  | .getUserPermissions userId, world, _, world' => Loaded tablePrefix userId world world'
  | _, world, false, world' => Unchanged world world'

section

variable {tablePrefix : JsString} {faults : Bool}

/-- NocoDB answers at once and would give the key 9 to a new row. -/
def prompt (count : Nat) : List Choice :=
  List.replicate count ⟨false, 9, [], 0⟩

/-- A completed program satisfies its specification, by whether it succeeds. -/
theorem Completes.of_wp {α : Type} {program : Service α} {world world' : World}
    {succeeds : Bool} {onResult onException : World → Prop}
    (h : Completes faults program world succeeds world')
    (hspec : wp (nocodb faults).contract program (byOutcome onResult onException) world) :
    if succeeds then onResult world' else onException world' := by
  obtain ⟨result, hexec, rfl⟩ := h
  have hpost := wp_sound hspec hexec
  cases result with
  | ok value => exact hpost
  | error exception => exact hpost

/-- A completed program has the effect that its specification gives it in any case. -/
theorem Completes.of_wp_any {α : Type} {program : Service α} {world world' : World}
    {succeeds : Bool} {effect : World → Prop}
    (h : Completes faults program world succeeds world')
    (hspec : wp (nocodb faults).contract program (fun _ => effect) world) : effect world' := by
  obtain ⟨result, hexec, -⟩ := h
  exact wp_sound hspec hexec

/-- The code of every call refines its effect. -/
theorem Call.effect_of_performs {call : Call} {world world' : World} {succeeds : Bool}
    (h : call.Performs tablePrefix faults world succeeds world') :
    call.Effect tablePrefix world succeeds world' := by
  cases call with
  | createRole dto =>
      have heffect := Completes.of_wp h wp_createRole
      cases succeeds <;> exact heffect
  | deleteRole roleId =>
      have heffect := Completes.of_wp h wp_deleteRole
      cases succeeds <;> exact heffect
  | setTablePermissions dto =>
      have heffect := Completes.of_wp h wp_setTablePermissions
      cases succeeds <;> exact heffect
  | deleteRolePermissions roleId =>
      have heffect := Completes.of_wp h wp_deleteRolePermissions
      cases succeeds <;> exact heffect
  | assignRole dto =>
      have heffect := Completes.of_wp h wp_assignRole
      cases succeeds <;> exact heffect
  | removeRole userId roleId =>
      have heffect := Completes.of_wp h wp_removeRole
      cases succeeds <;> exact heffect
  | batchSetPermissions dto =>
      have heffect := Completes.of_wp_any h wp_batchSetPermissions
      cases succeeds <;> exact heffect
  | copyPermissions sourceRoleId targetRoleId =>
      have heffect := Completes.of_wp_any h wp_copyPermissions
      cases succeeds <;> exact heffect
  | assignMultipleRoles dto =>
      have heffect := Completes.of_wp_any h wp_assignMultipleRoles
      cases succeeds <;> exact heffect
  | createLocalUser dto =>
      have heffect := Completes.of_wp_any h wp_createLocalUser
      cases succeeds <;> exact heffect
  | bootstrapAdmin configuredToken dto bootstrapToken =>
      have heffect := Completes.of_wp_any h wp_bootstrapAdmin
      cases succeeds <;> exact heffect
  | seedDefaultPermissions =>
      have heffect := Completes.of_wp_any h wp_seedDefaultPermissions
      cases succeeds <;> exact heffect
  | getUserPermissions userId =>
      obtain ⟨result, hexec, -⟩ := h
      have hloaded : Loaded tablePrefix userId world world' := by
        rcases wp_sound wp_getUserPermissions hexec with ⟨value, -, -, h⟩ | hloads
        · exact Or.inl h
        · cases result with
          | error exception => exact Or.inl hloads.1
          | ok value =>
              obtain ⟨hallows, htables, hrows, hclock, hcache | hcache⟩ := hloads
              · exact Or.inl ⟨htables, hrows, hcache, hclock⟩
              · exact Or.inr ⟨value, hallows, htables, hrows, hclock, hcache⟩
      cases succeeds <;> exact hloaded

/-- The world after a program has run under given choices. -/
def settle {α : Type} (faults : Bool) (program : Service α) (choices : List Choice)
    (world : World) : World :=
  ((nocodb faults).run program choices world).elim world Prod.snd

/-- A run under given choices is an execution with its result. -/
theorem exec_of_settle {α : Type} {program : Service α} {choices : List Choice} {world : World}
    {result : Except Exception α}
    (h : ((nocodb faults).run program choices world).map Prod.fst = some result) :
    Exec (nocodb faults).contract program world result
      (settle faults program choices world) :=
  System.exec_final _ h

/-- A run under given choices completes the program. -/
theorem completes_of_run {α : Type} {program : Service α} {choices : List Choice}
    {world : World} {succeeds : Bool}
    (h : ((nocodb faults).run program choices world).map (fun outcome => outcome.1.isOk) =
      some succeeds) :
    Completes faults program world succeeds (settle faults program choices world) := by
  obtain ⟨outcome, hrun, hsucceeds⟩ := Option.map_eq_some_iff.mp h
  refine ⟨outcome.1, ?_, hsucceeds⟩
  rw [settle, hrun]
  exact System.exec_of_run _ hrun

/-- Under given choices the program succeeds, and the world then passes a check. -/
def succeedsWith {α : Type} (faults : Bool) (program : Service α) (choices : List Choice)
    (check : World → Bool) (world : World) : Bool :=
  ((nocodb faults).run program choices world).any fun outcome =>
    outcome.1.isOk && check outcome.2

theorem completes_of_succeedsWith {α : Type} {program : Service α} {choices : List Choice}
    {world : World} {check : World → Bool}
    (h : succeedsWith faults program choices check world = true) :
    ∃ world', Completes faults program world true world' ∧ check world' = true := by
  obtain ⟨⟨result, world'⟩, hrun, hcheck⟩ := (Option.any_eq_true _ _).mp h
  rw [Bool.and_eq_true] at hcheck
  exact ⟨world', ⟨result, System.exec_of_run _ hrun, hcheck.1⟩, hcheck.2⟩

end

end Runs
end NocoMiddleware
