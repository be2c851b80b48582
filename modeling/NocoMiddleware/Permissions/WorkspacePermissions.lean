import NocoMiddleware.Data.TableCatalog
import NocoMiddleware.Permissions.TableNameLookup

/-!
# Permissions on the tables of the workspace

`setTablePermissions` and `initializePermissionsForRole` of `PermissionsService`, which give a
role the same rights on every table of the base.  The names come from the titles of the
tables as they are, so a name may be one that the filter does not take, or trims.
-/

namespace NocoMiddleware
namespace Permissions
namespace PermissionsService

open NocoMiddleware.Js NocoMiddleware.Filter NocoMiddleware.Tables NocoMiddleware.Store
open NocoMiddleware.Foundation

/-- What is written for a table: a flag that is not given is `false`. -/
def permissionsDto (roleId : JsNumber) (permissions : CrudAction → Option Bool)
    (tableName : JsString) : SetTablePermissionsDto where
  roleId := roleId
  tableName := .string tableName
  canCreate := (permissions .create).getD false
  canRead := (permissions .read).getD false
  canUpdate := (permissions .update).getD false
  canDelete := (permissions .delete).getD false

section

variable (tablePrefix : JsString) (roleId : JsNumber)

/-- `setTablePermissions`. -/
def setTablePermissions (tableName : JsString) (permissions : CrudAction → Option Bool) :
    Service Unit := do
  let permissionsTable ← getTableByName tablePrefix SystemTable.tablePermissions.name
  match permissionsTable with
  | none => throw (.intrinsic (js "Table_permissions table not found"))
  | some permissionsTable =>
      let filter ← Program.ofExcept
        (filterBoth (js "role_id") (.number roleId) (js "table_name") (.string tableName))
      let existing ← findOne permissionsTable.id filter
      let _ : NocoRecord ← match existing with
        | some existing => do
            let recordId ← Program.ofExcept (extractNumericId existing)
            update permissionsTable.id recordId
              (permissionData (permissionsDto roleId permissions tableName))
        | none =>
            create permissionsTable.id
              (permissionData (permissionsDto roleId permissions tableName))
      clearCache none

/-- `initializePermissionsForRole`. -/
def initializePermissionsForRole (defaultPermissions : CrudAction → Option Bool) :
    Service Unit := do
  let tables ← Program.call Op.listTables
  forM (Data.getAllWorkspaceTables tablePrefix tables) fun tableName =>
    setTablePermissions tablePrefix roleId tableName defaultPermissions

end

section

variable {faults : Bool} {tablePrefix : JsString} {world : World} {roleId : JsNumber}
  {permissions : CrudAction → Option Bool} {name : JsString}

theorem allows_permissionsDto (action : CrudAction) :
    (permissionsDto roleId permissions name).allows action =
      (permissions action).getD false := by
  cases action <;> rfl

/-- The permission table is there, and a filter can be built for the role and the name. -/
structure Settable (tablePrefix : JsString) (tables : List TableMeta) (roleId : JsNumber)
    (name : JsString) : Prop where
  found : (resolve tablePrefix tables SystemTable.tablePermissions.name).isSome = true
  role : PlainNumber roleId
  quotable : Quotable (trim name)

/-- `setTablePermissions` writes one permission row and clears the cache, or changes nothing;
without failing requests it does the former wherever it can. -/
theorem wp_setTablePermissions :
    wp (nocodb faults).contract (setTablePermissions tablePrefix roleId name permissions)
      (byOutcome
        (fun world' => Settable tablePrefix world.tables roleId name ∧
          PermissionsSet tablePrefix (permissionsDto roleId permissions name) world world')
        (fun world' => Unchanged world world' ∧
          (faults = true ∨ ¬ Settable tablePrefix world.tables roleId name))) world := by
  rw [setTablePermissions, wp_bind]
  refine wp_getTableByName (fun hfaults _ h => ⟨h, Or.inl hfaults⟩) fun w₁ h₁ => ?_
  rw [onOk_ok]
  cases hfound : resolve tablePrefix world.tables SystemTable.tablePermissions.name with
  | none =>
      refine ⟨h₁, Or.inr fun h => ?_⟩
      have hsome := h.found
      simp [hfound] at hsome
  | some permissionsTable =>
      apply @wp_upsert faults tablePrefix Unit world w₁ (permissionsDto roleId permissions name) _
        _ _ h₁ hfound
      · intro exception hfilter
        refine ⟨h₁, Or.inr fun h => ?_⟩
        obtain ⟨filter, hbuilt⟩ := filterBoth_permission_isOk_iff.mpr ⟨h.role, h.quotable⟩
        cases hfilter.symm.trans hbuilt
      · intro hfaults w₂ h₂
        exact ⟨h₂, Or.inl hfaults⟩
      · intro filter record w₂ hfilter hupserted
        refine wp_clearCache_cleared fun w₃ hcleared => ?_
        obtain ⟨hrole, hquotable⟩ := filterBoth_permission_isOk_iff.mp ⟨filter, hfilter⟩
        exact ⟨⟨by rw [hfound]; rfl, hrole, hquotable⟩, w₂, hupserted, hcleared⟩

/-- The rule for `initializePermissionsForRole`: an invariant of the names that are done.  The
loop stops at the first name whose row cannot be set. -/
theorem wp_initializePermissionsForRole (invariant : List JsString → World → Prop)
    (hstart : ∀ world', Unchanged world world' → invariant [] world')
    (hstep : ∀ completed name remaining middle world',
      Data.getAllWorkspaceTables tablePrefix world.tables = completed ++ name :: remaining →
      invariant completed middle →
      PermissionsSet tablePrefix (permissionsDto roleId permissions name) middle world' →
      invariant (completed ++ [name]) world') :
    wp (nocodb faults).contract (initializePermissionsForRole tablePrefix roleId permissions)
      (byOutcome
        (fun world' => (∀ name ∈ Data.getAllWorkspaceTables tablePrefix world.tables,
            Settable tablePrefix world.tables roleId name) ∧
          invariant (Data.getAllWorkspaceTables tablePrefix world.tables) world')
        (fun _ => faults = true ∨
          ∃ name ∈ Data.getAllWorkspaceTables tablePrefix world.tables,
            ¬ Settable tablePrefix world.tables roleId name)) world := by
  rw [initializePermissionsForRole, wp_bind]
  refine wp_call_nocodb (fun hfaults _ _ => Or.inl hfaults) fun choice w₁ _ h₁ => ?_
  show wp _ (forM (Data.getAllWorkspaceTables tablePrefix w₁.tables) _) _ w₁
  rw [h₁.tables]
  refine wp_forM
    (fun remaining world' => ∃ completed,
      Data.getAllWorkspaceTables tablePrefix world.tables = completed ++ remaining ∧
      world'.tables = world.tables ∧
      (∀ name ∈ completed, Settable tablePrefix world.tables roleId name) ∧
      invariant completed world') ?_ ?_ ⟨[], rfl, h₁.tables, by simp, hstart w₁ h₁⟩
  · rintro name remaining w₂ ⟨completed, hsplit, htables, hsettable, hinvariant⟩
    refine wp_mono wp_setTablePermissions fun result w₃ h₃ => ?_
    rw [htables] at h₃
    cases result with
    | error exception =>
        refine h₃.2.imp_right fun hnot => ⟨name, ?_, hnot⟩
        rw [hsplit]
        exact List.mem_append_right _ List.mem_cons_self
    | ok _ =>
        obtain ⟨hname, hset⟩ := h₃
        refine ⟨completed ++ [name], ?_, hset.tables.trans htables, ?_, ?_⟩
        · rw [hsplit, List.append_assoc, List.singleton_append]
        · intro other hother
          rcases List.mem_append.mp hother with hother | hother
          · exact hsettable other hother
          · rw [List.mem_singleton.mp hother]
            exact hname
        · exact hstep completed name remaining w₂ w₃ hsplit hinvariant hset
  · rintro w₂ ⟨completed, hsplit, htables, hsettable, hinvariant⟩
    rw [List.append_nil] at hsplit
    rw [hsplit]
    exact ⟨hsettable, hinvariant⟩

end

end PermissionsService
end Permissions
end NocoMiddleware
