import NocoMiddleware.Runs.CacheCoherence

/-!
# Cache coherence on error paths

A rejected call may have applied some of its writes.  All of them but the deletes of
`deleteRolePermissions` are additions, or are followed by a `clearCache` before the
next request; a rejected `deleteRolePermissions` leaves the entries alive that its
deletes concern.
-/

namespace NocoMiddleware
namespace Runs

open NocoMiddleware.Js NocoMiddleware.Tables NocoMiddleware.Store NocoMiddleware.Permissions
open NocoMiddleware.Users NocoMiddleware.Roles NocoMiddleware.Auth NocoMiddleware.Foundation

/-- The call is a mutating call of `PermissionsManagementService`, `RolesService` or
`UserRolesService`. -/
def Call.isMutating : Call → Bool
  | .createLocalUser _ => false
  | .bootstrapAdmin _ _ _ => false
  | .seedDefaultPermissions => false
  | .getUserPermissions _ => false
  | _ => true

/-- No later check is answered with a grant that was in the store before and is not in
it after. -/
def KeepsGrants (tablePrefix : JsString) (world world' : World) : Prop :=
  ∀ later, Unchanged world' later → ∀ userId table action final,
    Exec (nocodb true).contract (canUserPerformAction tablePrefix userId table action) later
      (.ok true) final →
    Grants tablePrefix world userId table action → Grants tablePrefix world' userId table action

/-- The rows that are left of a system table when the first permission rows of a role
are deleted. -/
def rowsWithout (tablePrefix : JsString) (world : World) (roleId : JsNumber) (applied : Nat)
    (table : SystemTable) : List Row :=
  let deleted := ((rolePermissions tablePrefix world roleId).take applied).map Row.id
  let isPermissionsTable :=
    (resolve tablePrefix world.tables table.name).map TableMeta.id =
      (resolve tablePrefix world.tables SystemTable.tablePermissions.name).map TableMeta.id
  (systemRows tablePrefix world table).filter fun row =>
    ¬ (isPermissionsTable ∧ row.id ∈ deleted)

/-- The rows grant the action on the table to the user. -/
def GrantedBy (rows : SystemTable → List Row) (userId : JsNumber) (table : JsString)
    (action : CrudAction) : Prop :=
  ∃ roleId, 0 < roleId ∧ (∃ row ∈ rows .userRoles, Assigns row userId roleId) ∧
    (∃ row ∈ rows .roles, row.id = roleId) ∧
    ∃ row ∈ rows .tablePermissions, Permits row roleId table action

/-- Each grant of a live entry that the store backs is also backed by the rows that are
left when the first permission rows of a role are deleted. -/
def GrantsSurvive (tablePrefix : JsString) (world : World) (now : Nat) (roleId : JsNumber)
    (applied : Nat) : Prop :=
  ∀ userId value, world.cache.live now userId = some value → ∀ table action,
    value.allows table action = true → Grants tablePrefix world userId table action →
    GrantedBy (rowsWithout tablePrefix world roleId applied) userId table action

section

variable {tablePrefix : JsString}

theorem grants_iff_grantedBy (world : World) (userId : JsNumber) (table : JsString)
    (action : CrudAction) :
    Grants tablePrefix world userId table action ↔
      (∀ system : SystemTable, (resolve tablePrefix world.tables system.name).isSome = true) ∧
        GrantedBy (systemRows tablePrefix world) userId table action := by
  simp only [Grants, HoldsRole, GrantedBy, and_assoc]

/-- A check that is answered with yes has found a live entry that allows the action, or
the store grants it. -/
theorem wp_canUserPerformAction_true {world : World} {userId : JsNumber} {table : JsString}
    {action : CrudAction} :
    wp (nocodb true).contract (canUserPerformAction tablePrefix userId table action)
      (fun result _ => result = .ok true →
        (∃ value, world.cache.live world.clock userId = some value ∧
          value.allows table action = true) ∨
        Grants tablePrefix world userId table action) world := by
  rw [canUserPerformAction, wp_bind]
  refine wp_mono wp_getUserPermissions fun result world' hresult => ?_
  cases result with
  | error exception =>
      intro h
      cases h
  | ok value =>
      rw [onOk_ok, wp_pure, Except.ok.injEq]
      intro hallows
      rcases hresult with ⟨found, hlive, hvalue, -⟩ | hloads
      · obtain rfl := Except.ok.inj hvalue
        exact Or.inl ⟨value, hlive, hallows⟩
      · exact Or.inr ((hloads.1 table action).mp hallows)

/-- A live entry answers a check. -/
theorem exec_of_live (tablePrefix : JsString) {world : World} {userId : JsNumber}
    {value : UserPermissions} (hlive : world.cache.live world.clock userId = some value)
    (table : JsString) (action : CrudAction) :
    Exec (nocodb true).contract (canUserPerformAction tablePrefix userId table action) world
      (.ok (value.allows table action)) world := by
  have hstep : (nocodb true).contract.step (Op.cacheGet userId) world (.ok (some value)) world := by
    refine ⟨⟨false, 0, [], 0⟩, rfl, ?_⟩
    show (Except.ok (world.cache.live world.clock userId), world) = _
    rw [hlive]
  exact .perform hstep (.done _ world)

/-- Checks are answered with kept grants exactly if every live entry allows only what
is still granted, among what was granted before. -/
theorem keepsGrants_iff {world world' : World} :
    KeepsGrants tablePrefix world world' ↔
      ∀ userId value, world'.cache.live world'.clock userId = some value → ∀ table action,
        value.allows table action = true → Grants tablePrefix world userId table action →
        Grants tablePrefix world' userId table action := by
  constructor
  · intro h userId value hlive table action hallows
    have hexec := exec_of_live tablePrefix hlive table action
    rw [hallows] at hexec
    exact h world' (Unchanged.refl world') userId table action world' hexec
  · intro h later hlater userId table action final hexec hgrants
    rcases wp_sound wp_canUserPerformAction_true hexec rfl with ⟨value, hlive, hallows⟩ | hnow
    · exact h userId value (hlater.live hlive) table action hallows hgrants
    · exact (grants_of_unchanged hlater userId table action).mp hnow

/-! ## Calls that keep all grants -/

/-- What the store granted first is still granted to the users with a live entry. -/
def GrantsKept (tablePrefix : JsString) (first world : World) : Prop :=
  ∀ userId, ¬ NotCached world userId → ∀ table action,
    Grants tablePrefix first userId table action → Grants tablePrefix world userId table action

theorem keepsGrants_of_grantsKept {world world' : World}
    (h : GrantsKept tablePrefix world world') : KeepsGrants tablePrefix world world' := by
  refine keepsGrants_iff.mpr fun userId value hlive table action _ => ?_
  refine h userId (fun hnone => ?_) table action
  rw [NotCached, hlive] at hnone
  contradiction

theorem grantsKept_refl (world : World) : GrantsKept tablePrefix world world :=
  fun _ _ _ _ h => h

theorem grantsKept_unchanged (first : World) :
    Preserves Unchanged (GrantsKept tablePrefix first) := by
  intro world world' h hkept userId hcached table action hgrants
  refine (grants_of_unchanged h userId table action).mpr (hkept userId ?_ table action hgrants)
  exact fun hnone => hcached (notCached_of_live (fun _ hlive => h.live hlive) hnone)

/-- More rows grant more. -/
theorem grants_of_insert {table : SystemTable} {row : Row} {world world' : World}
    (h : Changed tablePrefix table (.insert row) world world') {userId : JsNumber}
    {name : JsString} {action : CrudAction}
    (hgrants : Grants tablePrefix world userId name action) :
    Grants tablePrefix world' userId name action := by
  obtain ⟨hresolve, roleId, ⟨hpositive, ⟨assignment, hassignment, hassigns⟩, role, hrole, hid⟩,
    permission, hpermission, hpermits⟩ := hgrants
  refine ⟨fun system => h.tables ▸ hresolve system, roleId, ⟨hpositive, ?_, ?_⟩, ?_⟩
  · exact ⟨assignment, h.mem_of_insert hassignment, hassigns⟩
  · exact ⟨role, h.mem_of_insert hrole, hid⟩
  · exact ⟨permission, h.mem_of_insert hpermission, hpermits⟩

theorem grantsKept_assigned (first : World) (userId roleId : JsNumber) :
    Preserves (Assigned tablePrefix userId roleId) (GrantsKept tablePrefix first) := by
  rintro world world' ⟨middle, ⟨-, row, -, -, hchanged⟩, hcleared⟩ hkept other hcached table action
    hgrants
  have hcachedBefore : ¬ NotCached world other := fun hnone => hcached
    (notCached_of_live (fun _ hlive => hchanged.live (hcleared.live hlive).2) hnone)
  have hmiddle := grants_of_insert hchanged (hkept other hcachedBefore table action hgrants)
  have hsame : Grants tablePrefix world' other table action ↔
      Grants tablePrefix middle other table action := by
    simp only [Grants, HoldsRole, hcleared.tables, hcleared.systemRows_eq]
  exact hsame.mpr hmiddle

theorem grantsKept_permissionsSet (first : World) (dto : SetTablePermissionsDto) :
    Preserves (PermissionsSet tablePrefix dto) (GrantsKept tablePrefix first) := by
  rintro world world' ⟨middle, -, hcleared⟩ - userId hcached
  -- nobody has a live entry after the whole cache is cleared
  refine absurd ?_ hcached
  rw [NotCached, Option.eq_none_iff_forall_ne_some]
  intro value hlive
  exact (hcleared.live hlive).1 fun id hid => by cases hid

theorem grantsKept_assignedSome (first : World) (userId : JsNumber) (roleIds : List JsNumber) :
    Preserves (AssignedSome tablePrefix userId roleIds) (GrantsKept tablePrefix first) :=
  (grantsKept_unchanged first).someOf fun roleId _ => grantsKept_assigned first userId roleId

theorem grantsKept_permissionsSetSome (first : World) (dtos : List SetTablePermissionsDto) :
    Preserves (PermissionsSetSome tablePrefix dtos) (GrantsKept tablePrefix first) :=
  (grantsKept_unchanged first).someOf fun dto _ => grantsKept_permissionsSet first dto

/-! ## The exact condition -/

theorem mem_rowsWithout_iff {world world' : World} {roleId : JsNumber} {applied : Nat}
    (h : DeletedFirst tablePrefix roleId applied world world')
    (hresolve : ∀ system : SystemTable,
      (resolve tablePrefix world.tables system.name).isSome = true)
    (table : SystemTable) (row : Row) :
    row ∈ systemRows tablePrefix world' table ↔
      row ∈ rowsWithout tablePrefix world roleId applied table := by
  obtain ⟨found, hfound⟩ := Option.isSome_iff_exists.mp (hresolve table)
  obtain ⟨permissions, hpermissions⟩ :=
    Option.isSome_iff_exists.mp (hresolve .tablePermissions)
  have hfound' : resolve tablePrefix world'.tables table.name = some found := by
    rw [h.tables, hfound]
  have htable : IsPermissionsTable tablePrefix world found.id ↔ found.id = permissions.id := by
    rw [IsPermissionsTable, hpermissions]
    constructor
    · rintro ⟨other, hother, hid⟩
      rw [← hid, Option.some.inj hother]
    · exact fun hid => ⟨permissions, rfl, hid.symm⟩
  rw [systemRows_eq hfound', h.rows, htable, rowsWithout, List.mem_filter, systemRows_eq hfound,
    hfound, hpermissions]
  simp [imp_iff_not_or]

theorem grants_of_deletedFirst {world world' : World} {roleId : JsNumber} {applied : Nat}
    (h : DeletedFirst tablePrefix roleId applied world world') {userId : JsNumber}
    {table : JsString} {action : CrudAction}
    (hgrants : Grants tablePrefix world userId table action) :
    Grants tablePrefix world' userId table action ↔
      GrantedBy (rowsWithout tablePrefix world roleId applied) userId table action := by
  have hresolve := hgrants.1
  rw [grants_iff_grantedBy, h.tables]
  simp only [hresolve, implies_true, true_and, GrantedBy, mem_rowsWithout_iff h hresolve]

/-- The deletes that were applied keep the grants that other rows give as well. -/
theorem keepsGrants_iff_of_deletedFirst {world world' : World} {roleId : JsNumber} {applied : Nat}
    (h : DeletedFirst tablePrefix roleId applied world world') :
    KeepsGrants tablePrefix world world' ↔
      GrantsSurvive tablePrefix world world'.clock roleId applied := by
  rw [keepsGrants_iff]
  constructor
  · intro hkeeps userId value hlive table action hallows hgrants
    rw [← h.cache] at hlive
    apply (grants_of_deletedFirst h hgrants).mp
    exact hkeeps userId value hlive table action hallows hgrants
  · intro hsurvive userId value hlive table action hallows hgrants
    rw [h.cache] at hlive
    apply (grants_of_deletedFirst h hgrants).mpr
    exact hsurvive userId value hlive table action hallows hgrants

/-- A rejected call keeps all grants, but for `deleteRolePermissions`: it keeps them
exactly if each grant of a live entry survives the deletes that were applied before
the request that failed. -/
theorem rejected_call_keeps_grants_iff {call : Call} (hmutating : call.isMutating = true)
    {world world' : World} (h : call.Performs tablePrefix true world false world') :
    ∃ applied,
      (∀ roleId, call = .deleteRolePermissions roleId →
        DeletedFirst tablePrefix roleId applied world world') ∧
      (KeepsGrants tablePrefix world world' ↔
        ∀ roleId, call = .deleteRolePermissions roleId →
          GrantsSurvive tablePrefix world world'.clock roleId applied) := by
  have heffect := Call.effect_of_performs h
  -- every other call keeps the grants whatever was applied
  have hother : (∀ roleId, call ≠ .deleteRolePermissions roleId) →
      GrantsKept tablePrefix world world' → ∃ applied,
        (∀ roleId, call = .deleteRolePermissions roleId →
          DeletedFirst tablePrefix roleId applied world world') ∧
        (KeepsGrants tablePrefix world world' ↔
          ∀ roleId, call = .deleteRolePermissions roleId →
            GrantsSurvive tablePrefix world world'.clock roleId applied) := by
    intro hcall hkept
    refine ⟨0, fun roleId heq => absurd heq (hcall roleId), ?_⟩
    exact iff_of_true (keepsGrants_of_grantsKept hkept)
      fun roleId heq => absurd heq (hcall roleId)
  have hunchanged : Unchanged world world' → GrantsKept tablePrefix world world' :=
    fun h => grantsKept_unchanged world world world' h (grantsKept_refl world)
  cases call with
  | deleteRolePermissions roleId =>
      obtain ⟨applied, hdeleted⟩ := heffect
      refine ⟨applied, ?_, ?_⟩
      · rintro _ ⟨⟩
        exact hdeleted
      · rw [keepsGrants_iff_of_deletedFirst hdeleted]
        constructor
        · rintro hsurvive _ ⟨⟩
          exact hsurvive
        · intro hsurvive
          exact hsurvive roleId rfl
  | createRole dto => exact hother (by simp) (hunchanged heffect)
  | deleteRole roleId => exact hother (by simp) (hunchanged heffect)
  | setTablePermissions dto => exact hother (by simp) (hunchanged heffect)
  | assignRole dto => exact hother (by simp) (hunchanged heffect)
  | removeRole userId roleId => exact hother (by simp) (hunchanged heffect)
  | batchSetPermissions dto =>
      apply hother (by simp)
      exact grantsKept_permissionsSetSome world _ world world' heffect (grantsKept_refl world)
  | copyPermissions sourceRoleId targetRoleId =>
      apply hother (by simp)
      exact grantsKept_permissionsSetSome world _ world world' heffect (grantsKept_refl world)
  | assignMultipleRoles dto =>
      apply hother (by simp)
      exact grantsKept_assignedSome world _ _ world world' heffect (grantsKept_refl world)
  | createLocalUser dto => contradiction
  | bootstrapAdmin configuredToken dto bootstrapToken => contradiction
  | seedDefaultPermissions => contradiction
  | getUserPermissions userId => contradiction

end

/-! ## A grant that outlives its row -/

/-- A store in which role 3 may read two tables, and user 7 has the role. -/
def twoTablesWorld : World :=
  .holding []
    [(js "roles", .ofRows [.ofCells 3 [(js "role_name", .string (js "reader"))]]),
      (js "user_roles", .ofRows
        [.ofCells 1 [(js "user_id", .number (.ofNat 7)), (js "role_id", .number (.ofNat 3))]]),
      (js "table_permissions", .ofRows
        [.ofCells 1 [(js "role_id", .number (.ofNat 3)),
            (js "table_name", .string (js "orders")), (js "can_read", .boolean true)],
          .ofCells 2 [(js "role_id", .number (.ofNat 3)),
            (js "table_name", .string (js "invoices")), (js "can_read", .boolean true)]])]

/-- The store with the permissions of user 7 in the cache. -/
def cachedTwoTables : World :=
  settle true (getUserPermissions [] (.ofNat 7)) (prompt 10) twoTablesWorld

/-- The second delete of `deleteRolePermissions` fails. -/
def halfDeleted : World :=
  settle true (deleteRolePermissions [] (.ofNat 3)) (prompt 3 ++ [⟨true, 9, [], 0⟩])
    cachedTwoTables

theorem halfDeleted_performs :
    (Call.deleteRolePermissions (.ofNat 3)).Performs [] true cachedTwoTables false halfDeleted :=
  completes_of_run (by decide +kernel)

theorem rejected_deleteRolePermissions :
    ∃ applied,
      (∀ roleId, Call.deleteRolePermissions (.ofNat 3) = .deleteRolePermissions roleId →
        DeletedFirst [] roleId applied cachedTwoTables halfDeleted) ∧
      (KeepsGrants [] cachedTwoTables halfDeleted ↔
        ∀ roleId, Call.deleteRolePermissions (.ofNat 3) = .deleteRolePermissions roleId →
          GrantsSurvive [] cachedTwoTables halfDeleted.clock roleId applied) :=
  rejected_call_keeps_grants_iff rfl halfDeleted_performs

/-- What a check with an empty cache answers decides the grants. -/
theorem grants_of_observed {world : World} {userId : JsNumber} {count : Nat}
    {table : JsString} {action : CrudAction} {allowed : Bool}
    (h : observed userId count (world.setCache .empty) table action = some allowed) :
    Grants [] world userId table action ↔ allowed = true := by
  obtain ⟨value, final, hexec, rfl⟩ := exec_of_observed h
  exact (allows_of_exec (coherent_of_empty (World.cache_setCache world _)) hexec table action).symm

/-- A rejected `deleteRolePermissions` leaves a live entry with a grant that the store
no longer contains. -/
theorem lost_grant_after_rejected_delete :
    ¬ ∀ (call : Call) (world world' : World), call.isMutating = true →
      call.Performs [] true world false world' → KeepsGrants [] world world' := by
  intro h
  have hkeeps := keepsGrants_iff.mp (h _ _ _ rfl halfDeleted_performs)
  have hlive : (halfDeleted.cache.live halfDeleted.clock (.ofNat 7)).map
      (fun value => value.allows (js "orders") .read) = some true := by decide +kernel
  obtain ⟨value, hvalue, hallows⟩ := Option.map_eq_some_iff.mp hlive
  have hbefore : Grants [] cachedTwoTables (.ofNat 7) (js "orders") .read :=
    (grants_of_observed (by decide +kernel :
      observed (.ofNat 7) 10 (cachedTwoTables.setCache .empty) (js "orders") .read =
        some true)).mpr rfl
  have hafter : ¬ Grants [] halfDeleted (.ofNat 7) (js "orders") .read := fun hgrants => by
    have hcontra := (grants_of_observed (by decide +kernel :
      observed (.ofNat 7) 10 (halfDeleted.setCache .empty) (js "orders") .read =
        some false)).mp hgrants
    contradiction
  exact hafter (hkeeps (.ofNat 7) value hvalue (js "orders") .read hallows hbefore)

end Runs
end NocoMiddleware
