import NocoMiddleware.Permissions.PermissionsManagementService

/-!
# Seeding at startup

`seedDefaultPermissions` and `ensureAdminPermissions` of
`database-initialization.service.ts`, and what they change: the admin role is
inserted if there is none, and its permission row of each system table is
overwritten or inserted.  A failure ends the seeding without an exception.
-/

namespace NocoMiddleware
namespace Store

open NocoMiddleware.Js NocoMiddleware.Filter NocoMiddleware.Tables NocoMiddleware.Permissions
open NocoMiddleware.Foundation

/-- The fields of the admin role. -/
def adminRoleData : Payload :=
  [(js "role_name", .string (js "admin")),
    (js "description", .string (js "System Administrator")),
    (js "is_system_role", .boolean true)]

/-- All rights of the admin role on a system table. -/
def adminPermissions (adminRoleId : JsNumber) (table : SystemTable) :
    SetTablePermissionsDto where
  roleId := adminRoleId
  tableName := .string table.name
  canCreate := true
  canRead := true
  canUpdate := true
  canDelete := true

/-- One round of the loop of `ensureAdminPermissions`. -/
def ensureAdminPermission (permissionsTableId : JsString) (adminRoleId : JsNumber)
    (table : SystemTable) : Service PUnit := do
  let filter ← Program.ofExcept (filterBoth (js "role_id") (.number adminRoleId)
    (js "table_name") (.string table.name))
  let existing ← findOne permissionsTableId filter
  match existing.filter fun record => record.id.truthy with
  | some existing =>
      let recordId ← Program.ofExcept (extractNumericId existing)
      let _ ← update permissionsTableId recordId
        (permissionData (adminPermissions adminRoleId table))
  | none =>
      let _ ← create permissionsTableId (permissionData (adminPermissions adminRoleId table))

/-- `ensureAdminPermissions`. -/
def ensureAdminPermissions (permissionsTableId : JsString) (adminRoleId : JsNumber) :
    Service PUnit :=
  forM SystemTable.all (ensureAdminPermission permissionsTableId adminRoleId)

section

variable (tablePrefix : JsString)

/-- The body of the `try` block of `seedDefaultPermissions`. -/
def seedPermissions : Service PUnit := do
  let rolesTable ← getTableByName tablePrefix SystemTable.roles.name
  let permissionsTable ← getTableByName tablePrefix SystemTable.tablePermissions.name
  match rolesTable, permissionsTable with
  | some rolesTable, some permissionsTable =>
      let filter ← Program.ofExcept (filterEqValue (js "role_name") (.string (js "admin")))
      let rolesResult ← list rolesTable.id filter 1
      let adminRole : NocoRecord ← match rolesResult.head? with
        | some adminRole => pure adminRole
        | none => create rolesTable.id adminRoleData
      let adminRoleId ← Program.ofExcept (extractNumericId adminRole)
      ensureAdminPermissions permissionsTable.id adminRoleId
  | _, _ => return

/-- `seedDefaultPermissions`. -/
def seedDefaultPermissions : Service PUnit :=
  tryCatch (seedPermissions tablePrefix) fun _ => pure PUnit.unit

end

/-! ## What the seeding changes -/

/-- The admin role is inserted; its row is no assignment and no permission. -/
def RoleInserted (tablePrefix : JsString) (world world' : World) : Prop :=
  ∃ row : Row, row.cell (js "user_id") = .undefined ∧ row.cell (js "table_name") = .undefined ∧
    Changed tablePrefix .roles (.insert row) world world'

/-- The steps of the seeding. -/
def Seeded (tablePrefix : JsString) : World → World → Prop :=
  Relation.ReflTransGen fun world world' =>
    Unchanged world world' ∨ RoleInserted tablePrefix world world' ∨
      ∃ roleId table, Upserted tablePrefix (adminPermissions roleId table) world world'

section

variable {faults : Bool} {tablePrefix : JsString}

theorem wp_ensureAdminPermission {world : World} {permissionsTable : TableMeta}
    {role : Nat} {table : SystemTable}
    (hfound : resolve tablePrefix world.tables SystemTable.tablePermissions.name =
      some permissionsTable) :
    wp (nocodb faults).contract
      (ensureAdminPermission permissionsTable.id (.ofNat role) table)
      (fun _ world' => world'.tables = world.tables ∧ Seeded tablePrefix world world')
      world := by
  have hseeded : ∀ world', Unchanged world world' → world'.tables = world.tables ∧
      Seeded tablePrefix world world' := fun world' h => ⟨h.tables, .single (Or.inl h)⟩
  have hupserted : ∀ world',
      Upserted tablePrefix (adminPermissions (.ofNat role) table) world world' →
      Seeded tablePrefix world world' :=
    fun world' h => .single (Or.inr (Or.inr ⟨.ofNat role, table, h⟩))
  rw [ensureAdminPermission, wp_bind, wp_ofExcept]
  cases hfilter : filterBoth (js "role_id") (.number (.ofNat role)) (js "table_name")
      (.string table.name) with
  | error exception => exact hseeded _ (Unchanged.refl world)
  | ok filter =>
      rw [onOk_ok, wp_bind]
      refine wp_findOne (selectRows_filterBoth hfilter) (satisfies_matches _ _)
        (fun _ _ h => hseeded _ h) ?_ ?_
      · intro habsent w₁ h₁
        rw [onOk_ok]
        simp only [Option.filter_none, wp_bind]
        refine wp_create_changed h₁ hfound (fun _ _ h => hseeded _ h) ?_
        intro row w₂ hcells hchanged
        refine ⟨hchanged.tables, hupserted w₂ ⟨⟨_, rfl⟩, Or.inr ⟨?_, row, hcells, hchanged⟩⟩⟩
        rwa [systemRows_eq hfound]
      · intro row hmem hmatches w₁ h₁
        rw [onOk_ok, Option.filter_some, if_pos (truthy_id_flattenRecord none row)]
        simp only [extractNumericId_flattenRecord, wp_bind, wp_ofExcept, onOk_ok]
        refine wp_update_changed h₁ hfound hmem (fun _ _ h => hseeded _ h) ?_
        intro w₂ hchanged
        exact ⟨hchanged.tables, hupserted w₂ ⟨⟨_, rfl⟩, Or.inl ⟨row, hmatches, hchanged⟩⟩⟩

/-- The permissions of the admin role, once it is known. -/
theorem wp_ensureAdminPermissions_seeds {first world : World} {role : Nat}
    {permissionsTable : TableMeta}
    (hfound : resolve tablePrefix first.tables SystemTable.tablePermissions.name =
      some permissionsTable)
    (htables : world.tables = first.tables) (hseeded : Seeded tablePrefix first world) :
    wp (nocodb faults).contract (ensureAdminPermissions permissionsTable.id (.ofNat role))
      (fun _ => Seeded tablePrefix first) world := by
  refine wp_forM
    (fun _ world' => world'.tables = first.tables ∧ Seeded tablePrefix first world')
    ?_ (fun _ h => h.2) ⟨htables, hseeded⟩
  rintro table remaining w₁ ⟨htables₁, h₁⟩
  have hfound₁ : resolve tablePrefix w₁.tables SystemTable.tablePermissions.name =
      some permissionsTable := by
    rw [htables₁, hfound]
  refine wp_mono (wp_ensureAdminPermission hfound₁) ?_
  rintro (exception | _) w₂ ⟨htables₂, h₂⟩
  · exact h₁.trans h₂
  · exact ⟨htables₂.trans htables₁, h₁.trans h₂⟩

theorem wp_seedPermissions_seeds {world : World} :
    wp (nocodb faults).contract (seedPermissions tablePrefix)
      (fun _ => Seeded tablePrefix world) world := by
  have hseeded : ∀ world', Unchanged world world' → Seeded tablePrefix world world' :=
    fun world' h => .single (Or.inl h)
  rw [seedPermissions, wp_bind]
  refine wp_getTableByName (fun _ _ h => hseeded _ h) fun w₁ h₁ => ?_
  rw [onOk_ok, wp_bind]
  refine wp_getTableByName (fun _ _ h => hseeded _ (h₁.trans h)) fun w₂ h₂ => ?_
  have h₂ := h₁.trans h₂
  rw [onOk_ok, h₁.tables]
  cases hroles : resolve tablePrefix world.tables SystemTable.roles.name with
  | none => exact hseeded _ h₂
  | some rolesTable =>
      cases hpermissions : resolve tablePrefix world.tables
          SystemTable.tablePermissions.name with
      | none => exact hseeded _ h₂
      | some permissionsTable =>
          simp only [wp_bind, wp_ofExcept]
          cases hfilter : filterEqValue (js "role_name") (.string (js "admin")) with
          | error exception => exact hseeded _ h₂
          | ok filter =>
              rw [onOk_ok, wp_bind]
              refine wp_list_one (selectRows_filterEqValue hfilter) (fun _ => Iff.rfl)
                (fun _ _ h => hseeded _ (h₂.trans h)) ?_ ?_
              · -- the admin role is created
                intro _ w₃ h₃
                have h₃ := h₂.trans h₃
                simp only [onOk_ok, List.head?_nil, wp_bind]
                refine wp_create_changed h₃ hroles (fun _ _ h => hseeded _ h) ?_
                intro row w₄ hcells hchanged
                simp only [extractNumericId_flattenRecord, wp_bind, wp_ofExcept, onOk_ok]
                apply wp_ensureAdminPermissions_seeds hpermissions hchanged.tables
                refine .single (Or.inr (Or.inl ⟨row, ?_, ?_, hchanged⟩))
                · exact (Row.cell_of_cells hcells (by decide)).trans rfl
                · exact (Row.cell_of_cells hcells (by decide)).trans rfl
              · intro role _ _ w₃ h₃
                have h₃ := h₂.trans h₃
                simp only [extractNumericId_flattenRecord, wp_bind, wp_ofExcept, onOk_ok,
                  List.head?_cons, wp_pure]
                exact wp_ensureAdminPermissions_seeds hpermissions h₃.tables (hseeded _ h₃)

/-- The seeding changes the admin role and its permissions only, also when it
fails. -/
theorem wp_seedDefaultPermissions {world : World} :
    wp (nocodb faults).contract (seedDefaultPermissions tablePrefix)
      (fun _ => Seeded tablePrefix world) world := by
  rw [seedDefaultPermissions, wp_tryCatch]
  apply wp_mono wp_seedPermissions_seeds
  intro result world' h
  cases result with
  | ok _ => exact h
  | error exception => exact h

end

end Store
end NocoMiddleware
