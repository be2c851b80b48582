import Mathlib.Logic.Relation
import NocoMiddleware.Permissions.Grants

/-!
# `PermissionsManagementService`

`setTablePermissions`, `batchSetPermissions`, `copyPermissions` and
`deleteRolePermissions`, and what they change: the permission row of a role and a
table is overwritten, or inserted where there was none, and the cache is cleared;
or rows are removed one after the other, and the cache is cleared at the end.
-/

namespace NocoMiddleware
namespace Permissions

open NocoMiddleware.Js NocoMiddleware.Filter NocoMiddleware.Tables NocoMiddleware.Store
open NocoMiddleware.Foundation

/-- The four flags of a permission row. -/
structure PermissionFlags where
  canCreate : Bool
  canRead : Bool
  canUpdate : Bool
  canDelete : Bool
  deriving DecidableEq

/-- The flags allow the action. -/
def PermissionFlags.allows (flags : PermissionFlags) : CrudAction → Bool
  | .create => flags.canCreate
  | .read => flags.canRead
  | .update => flags.canUpdate
  | .delete => flags.canDelete

/-- `SetTablePermissionsDto`.  The table name of a copied row may be any value. -/
structure SetTablePermissionsDto extends PermissionFlags where
  roleId : JsNumber
  tableName : JsValue
  deriving DecidableEq

/-- `TablePermissionItem`. -/
structure TablePermissionItem extends PermissionFlags where
  tableName : JsString
  deriving DecidableEq

/-- `BatchSetPermissionsDto`. -/
structure BatchSetPermissionsDto where
  roleId : JsNumber
  permissions : List TablePermissionItem
  deriving DecidableEq

/-- The answer of `batchSetPermissions`. -/
structure BatchSetResult where
  success : Bool
  count : Nat
  results : List NocoRecord

/-- The answer of `copyPermissions`. -/
structure CopyResult where
  success : Bool
  copiedCount : Nat

/-- The fields of a permission row. -/
def permissionData (dto : SetTablePermissionsDto) : Payload :=
  [(js "role_id", .number dto.roleId), (js "table_name", dto.tableName),
    (js "can_create", .boolean dto.canCreate), (js "can_read", .boolean dto.canRead),
    (js "can_update", .boolean dto.canUpdate), (js "can_delete", .boolean dto.canDelete)]

section

variable (tablePrefix : JsString)

/-- `setTablePermissions`. -/
def setTablePermissions (dto : SetTablePermissionsDto) : Service NocoRecord := do
  let permissionsTable ← getTableByName tablePrefix SystemTable.tablePermissions.name
  match permissionsTable with
  | none => throw (.notFound (js "Table_permissions table not found"))
  | some permissionsTable =>
      let filter ← Program.ofExcept
        (filterBoth (js "role_id") (.number dto.roleId) (js "table_name") dto.tableName)
      let existing ← findOne permissionsTable.id filter
      let result : NocoRecord ← match existing with
        | some existing => do
            let recordId ← Program.ofExcept (extractNumericId existing)
            update permissionsTable.id recordId (permissionData dto)
        | none => create permissionsTable.id (permissionData dto)
      clearCache none
      return result

/-- The dto that `batchSetPermissions` makes of an item. -/
def batchDto (roleId : JsNumber) (permission : TablePermissionItem) : SetTablePermissionsDto :=
  { permission.toPermissionFlags with
    roleId := roleId, tableName := .string permission.tableName }

/-- `batchSetPermissions`. -/
def batchSetPermissions (dto : BatchSetPermissionsDto) : Service BatchSetResult := do
  let results ← dto.permissions.foldlM
    (fun results permission => do
      let result ← setTablePermissions tablePrefix (batchDto dto.roleId permission)
      return results ++ [result]) []
  return ⟨true, results.length, results⟩

/-- The dto that `copyPermissions` makes of a record. -/
def copyDto (targetRoleId : JsNumber) (p : NocoRecord) : SetTablePermissionsDto where
  roleId := targetRoleId
  tableName := p.get (js "table_name")
  canCreate := (p.get (js "can_create")).truthy
  canRead := (p.get (js "can_read")).truthy
  canUpdate := (p.get (js "can_update")).truthy
  canDelete := (p.get (js "can_delete")).truthy

/-- `copyPermissions`. -/
def copyPermissions (sourceRoleId targetRoleId : JsNumber) : Service CopyResult := do
  let permissionsTable ← getTableByName tablePrefix SystemTable.tablePermissions.name
  match permissionsTable with
  | none => throw (.notFound (js "Table_permissions table not found"))
  | some permissionsTable =>
      let filter ← Program.ofExcept (filterEq (js "role_id") (.number sourceRoleId))
      let sourcePermissions ← listAll permissionsTable.id filter none
      forM sourcePermissions fun perm : NocoRecord => do
        let _ ← setTablePermissions tablePrefix (copyDto targetRoleId perm)
      return ⟨true, sourcePermissions.length⟩

/-- `deleteRolePermissions`. -/
def deleteRolePermissions (roleId : JsNumber) : Service Unit := do
  let permissionsTable ← getTableByName tablePrefix SystemTable.tablePermissions.name
  match permissionsTable with
  | none => throw (.notFound (js "Table_permissions table not found"))
  | some permissionsTable =>
      let filter ← Program.ofExcept (filterEq (js "role_id") (.number roleId))
      let permissions ← listAll permissionsTable.id filter none
      forM permissions fun perm : NocoRecord => do
        let recordId ← Program.ofExcept (extractNumericId perm)
        delete permissionsTable.id recordId
      clearCache none

end

/-! ## What the calls change -/

/-- The row is the one that a lookup by role and table name finds. -/
def Matches (roleId : JsNumber) (tableName : JsValue) (row : Row) : Prop :=
  row.cell (js "role_id") = .number roleId ∧
    satisfies row (eqCondition (js "table_name") tableName) = true

instance (roleId : JsNumber) (tableName : JsValue) (row : Row) :
    Decidable (Matches roleId tableName row) :=
  inferInstanceAs (Decidable (_ ∧ _))

/-- The permission row of a role and a table is overwritten, or inserted where there
was none. -/
def Upserted (tablePrefix : JsString) (dto : SetTablePermissionsDto) (world world' : World) :
    Prop :=
  (∃ x, dto.roleId = .finite x) ∧
    ((∃ row, Matches dto.roleId dto.tableName row ∧
        Changed tablePrefix .tablePermissions (.patch row (permissionData dto)) world world') ∨
      ((∀ row ∈ systemRows tablePrefix world .tablePermissions,
          ¬ Matches dto.roleId dto.tableName row) ∧
        ∃ row, row.cells = toCells (permissionData dto) ∧
          Changed tablePrefix .tablePermissions (.insert row) world world'))

/-- A permission row is overwritten or inserted, and the cache is cleared. -/
def PermissionsSet (tablePrefix : JsString) (dto : SetTablePermissionsDto)
    (world world' : World) : Prop :=
  ∃ middle, Upserted tablePrefix dto world middle ∧ Cleared none middle world'

/-- Some dtos of a list are written, one after the other. -/
def PermissionsSetSome (tablePrefix : JsString) (dtos : List SetTablePermissionsDto) :
    World → World → Prop :=
  Relation.ReflTransGen fun world world' =>
    Unchanged world world' ∨ ∃ dto ∈ dtos, PermissionsSet tablePrefix dto world world'

/-- The permission rows of a role, in the order in which they are listed. -/
def rolePermissions (tablePrefix : JsString) (world : World) (roleId : JsNumber) : List Row :=
  (systemRows tablePrefix world .tablePermissions).filter fun row =>
    row.cell (js "role_id") = .number roleId

/-- The name of the permission table resolves to this table. -/
def IsPermissionsTable (tablePrefix : JsString) (world : World) (tableId : JsString) : Prop :=
  ∃ found, resolve tablePrefix world.tables SystemTable.tablePermissions.name = some found ∧
    found.id = tableId

/-- The first permission rows of a role are deleted, and nothing else happens but the
passage of time. -/
structure DeletedFirst (tablePrefix : JsString) (roleId : JsNumber) (applied : Nat)
    (world world' : World) : Prop where
  tables : world'.tables = world.tables
  cache : world'.cache = world.cache
  clock : world.clock ≤ world'.clock
  rows : ∀ tableId row, row ∈ (world'.rows tableId).rows ↔
    row ∈ (world.rows tableId).rows ∧ (IsPermissionsTable tablePrefix world tableId →
      row.id ∉ ((rolePermissions tablePrefix world roleId).take applied).map Row.id)

/-- The dtos that copying the permissions of a role writes. -/
def copyDtos (tablePrefix : JsString) (world : World) (sourceRoleId targetRoleId : JsNumber) :
    List SetTablePermissionsDto :=
  (rolePermissions tablePrefix world sourceRoleId).map fun row =>
    copyDto targetRoleId (flattenRecord none row)

theorem PermissionsSet.tables {tablePrefix : JsString} {dto : SetTablePermissionsDto}
    {world world' : World} (h : PermissionsSet tablePrefix dto world world') :
    world'.tables = world.tables := by
  obtain ⟨middle, ⟨-, ⟨_, -, hchanged⟩ | ⟨-, _, -, hchanged⟩⟩, hcleared⟩ := h
  · rw [hcleared.tables, hchanged.tables]
  · rw [hcleared.tables, hchanged.tables]

/-! ## What a written row holds -/

section

variable {dto : SetTablePermissionsDto} {row : Row} {rest : List (JsString × JsonScalar)}

theorem cell_role_id_of_written (hfinite : ∃ x, dto.roleId = .finite x)
    (hcells : row.cells = toCells (permissionData dto) ++ rest) :
    row.cell (js "role_id") = .number dto.roleId := by
  obtain ⟨flags, roleId, tableName⟩ := dto
  obtain ⟨x, hx⟩ := hfinite
  obtain rfl : roleId = .finite x := hx
  exact (Row.cell_of_cells hcells (by decide)).trans rfl

theorem cell_flag_of_written (hfinite : ∃ x, dto.roleId = .finite x)
    (hcells : row.cells = toCells (permissionData dto) ++ rest) (action : CrudAction) :
    row.cell action.flag = .boolean (dto.allows action) := by
  obtain ⟨flags, roleId, tableName⟩ := dto
  obtain ⟨x, hx⟩ := hfinite
  obtain rfl : roleId = .finite x := hx
  rw [Row.cell_of_cells hcells (by cases action <;> decide)]
  -- the flags come after the table name, which may be left out
  cases tableName with
  | number value => cases value <;> cases action <;> rfl
  | _ => cases action <;> rfl

theorem cell_user_id_of_written (hfinite : ∃ x, dto.roleId = .finite x)
    (hcells : row.cells = toCells (permissionData dto) ++ rest) :
    row.cell (js "user_id") =
      ((rest.lookup (js "user_id")).map JsonScalar.toValue).getD .undefined := by
  obtain ⟨flags, roleId, tableName⟩ := dto
  obtain ⟨x, hx⟩ := hfinite
  obtain rfl : roleId = .finite x := hx
  rw [Row.cell_of_cells hcells (by decide)]
  cases tableName with
  | number value => cases value <;> rfl
  | _ => rfl

theorem cell_table_name_of_written {name : JsString} (hname : dto.tableName = .string name)
    (hfinite : ∃ x, dto.roleId = .finite x)
    (hcells : row.cells = toCells (permissionData dto) ++ rest) :
    row.cell (js "table_name") = .string name := by
  obtain ⟨flags, roleId, tableName⟩ := dto
  obtain ⟨x, hx⟩ := hfinite
  obtain rfl : roleId = .finite x := hx
  obtain rfl : tableName = .string name := hname
  exact (Row.cell_of_cells hcells (by decide)).trans rfl

/-- The table name of a written row is a string only if the dto names it, or the dto
names no table and the row had that name before. -/
theorem table_name_of_written {name : JsString} (hfinite : ∃ x, dto.roleId = .finite x)
    (hcells : row.cells = toCells (permissionData dto) ++ rest)
    (h : row.cell (js "table_name") = .string name) :
    dto.tableName = .string name ∨ (dto.tableName = .undefined ∧
      ((rest.lookup (js "table_name")).map JsonScalar.toValue).getD .undefined =
        .string name) := by
  obtain ⟨flags, roleId, tableName⟩ := dto
  obtain ⟨x, hx⟩ := hfinite
  obtain rfl : roleId = .finite x := hx
  rw [Row.cell_of_cells hcells (by decide)] at h
  cases tableName with
  | undefined => exact Or.inr ⟨rfl, h⟩
  | null => cases h
  | boolean flag => cases h
  | number value => cases value <;> cases h
  | string text =>
      obtain rfl : text = name := by
        injection h
      exact Or.inl rfl

end

section

variable {faults : Bool} {tablePrefix : JsString}

theorem satisfies_matches (roleId : JsNumber) (tableName : JsValue) (row : Row) :
    (satisfies row (eqCondition (js "role_id") (.number roleId)) &&
        satisfies row (eqCondition (js "table_name") tableName)) = true ↔
      Matches roleId tableName row := by
  rw [Bool.and_eq_true, satisfies_eqCondition_number (by decide), Matches]

/-- The rule for the lookup of a permission row and the write that follows it. -/
theorem wp_upsert {α : Type} {world w₁ : World} {dto : SetTablePermissionsDto}
    {permissionsTable : TableMeta} {rest : NocoRecord → Service α}
    {post : Except Exception α → World → Prop} (h₁ : Unchanged world w₁)
    (hfound : resolve tablePrefix world.tables SystemTable.tablePermissions.name =
      some permissionsTable)
    (hunbuilt : ∀ exception, filterBoth (js "role_id") (.number dto.roleId) (js "table_name")
      dto.tableName = .error exception → post (.error exception) w₁)
    (hfail : faults = true → ∀ w₂, Unchanged world w₂ → post (.error .upstream) w₂)
    (hupserted : ∀ filter record w₂, filterBoth (js "role_id") (.number dto.roleId)
        (js "table_name") dto.tableName = .ok filter → Upserted tablePrefix dto world w₂ →
      wp (nocodb faults).contract (rest record) post w₂) :
    wp (nocodb faults).contract (do
      let filter ← Program.ofExcept
        (filterBoth (js "role_id") (.number dto.roleId) (js "table_name") dto.tableName)
      let existing ← findOne permissionsTable.id filter
      let result : NocoRecord ← match existing with
        | some existing => do
            let recordId ← Program.ofExcept (extractNumericId existing)
            update permissionsTable.id recordId (permissionData dto)
        | none => create permissionsTable.id (permissionData dto)
      rest result) post w₁ := by
  rw [wp_bind, wp_ofExcept]
  cases hfilter : filterBoth (js "role_id") (.number dto.roleId) (js "table_name")
      dto.tableName with
  | error exception => exact hunbuilt exception hfilter
  | ok filter =>
      have hfinite : ∃ x, dto.roleId = .finite x := by
        obtain ⟨left, hleft, -⟩ := bind_eq_ok.mp hfilter
        exact finite_of_filterEq hleft
      rw [onOk_ok, wp_bind]
      refine wp_findOne (selectRows_filterBoth hfilter)
        (satisfies_matches _ _) (fun hfaults _ h => hfail hfaults _ (h₁.trans h)) ?_ ?_
      -- no row of the role and the table: one is created
      · intro habsent w₂ h₂
        rw [onOk_ok, wp_bind]
        refine wp_create_changed (h₁.trans h₂) hfound hfail ?_
        intro row w₃ hcells hchanged
        rw [onOk_ok]
        refine hupserted filter _ w₃ hfilter ⟨hfinite, Or.inr ⟨?_, row, hcells, hchanged⟩⟩
        rwa [systemRows_eq hfound, ← h₁.rows]
      -- the row that was found is overwritten
      · intro row hmem hmatches w₂ h₂
        rw [h₁.rows] at hmem
        simp only [extractNumericId_flattenRecord, wp_ofExcept, onOk_ok, wp_bind]
        refine wp_update_changed (h₁.trans h₂) hfound hmem hfail ?_
        intro w₃ hchanged
        rw [onOk_ok]
        exact hupserted filter _ w₃ hfilter ⟨hfinite, Or.inl ⟨row, hmatches, hchanged⟩⟩

/-- `setTablePermissions` writes one permission row and clears the cache, or changes
nothing. -/
theorem wp_setTablePermissions {world : World} {dto : SetTablePermissionsDto} :
    wp (nocodb faults).contract (setTablePermissions tablePrefix dto)
      (byOutcome (PermissionsSet tablePrefix dto world) (Unchanged world)) world := by
  rw [setTablePermissions, wp_bind]
  refine wp_getTableByName (fun _ _ h => h) fun w₁ h₁ => ?_
  rw [onOk_ok]
  cases hfound : resolve tablePrefix world.tables SystemTable.tablePermissions.name with
  | none => exact h₁
  | some permissionsTable =>
      apply wp_upsert h₁ hfound
      · intro exception _
        exact h₁
      · intro _ w₂ h₂
        exact h₂
      · intro filter record w₂ _ hupserted
        rw [wp_bind]
        refine wp_clearCache_cleared fun w₃ hcleared => ?_
        exact ⟨w₂, hupserted, hcleared⟩

/-- Writing one dto of a list. -/
theorem permissionsSetSome_of_result {dtos : List SetTablePermissionsDto}
    {dto : SetTablePermissionsDto} (hmem : dto ∈ dtos) {world world' : World}
    {result : Except Exception NocoRecord}
    (h : byOutcome (PermissionsSet tablePrefix dto world) (Unchanged world) result world') :
    PermissionsSetSome tablePrefix dtos world world' := by
  cases result with
  | ok record => exact .single (Or.inr ⟨dto, hmem, h⟩)
  | error exception => exact .single (Or.inl h)

/-- `batchSetPermissions` writes some of its items, also when it fails. -/
theorem wp_batchSetPermissions {world : World} {dto : BatchSetPermissionsDto} :
    wp (nocodb faults).contract (batchSetPermissions tablePrefix dto)
      (fun _ => PermissionsSetSome tablePrefix (dto.permissions.map (batchDto dto.roleId)) world)
      world := by
  rw [batchSetPermissions, wp_bind]
  refine wp_foldlM
    (fun _ remaining world' => (∀ item ∈ remaining, item ∈ dto.permissions) ∧
      PermissionsSetSome tablePrefix (dto.permissions.map (batchDto dto.roleId)) world world')
    ?_ ?_ ⟨fun _ h => h, Relation.ReflTransGen.refl⟩
  · rintro results item remaining w₁ ⟨hremaining, h₁⟩
    rw [wp_bind]
    refine wp_mono wp_setTablePermissions fun result w₂ h₂ => ?_
    have hmem : batchDto dto.roleId item ∈ dto.permissions.map (batchDto dto.roleId) :=
      List.mem_map_of_mem (hremaining item List.mem_cons_self)
    have h := h₁.trans (permissionsSetSome_of_result hmem h₂)
    cases result with
    | ok record => exact ⟨fun id hid => hremaining id (List.mem_cons_of_mem _ hid), h⟩
    | error exception => exact h
  · exact fun _ _ h => h.2

/-- The rule for `copyPermissions`: an invariant of the source rows that are copied. -/
theorem wp_copyPermissions_loop {world : World} {sourceRoleId targetRoleId : JsNumber}
    {post : Except Exception CopyResult → World → Prop} (invariant : List Row → World → Prop)
    (hfail : ∀ exception world', Unchanged world world' → post (.error exception) world')
    (hstart : ∀ world', Unchanged world world' → invariant [] world')
    (hstep : ∀ copied row remaining middle world',
      rolePermissions tablePrefix world sourceRoleId = copied ++ row :: remaining →
      invariant copied middle →
      PermissionsSet tablePrefix (copyDto targetRoleId (flattenRecord none row)) middle world' →
      invariant (copied ++ [row]) world')
    (hstop : ∀ copied exception middle world', invariant copied middle →
      Unchanged middle world' → post (.error exception) world')
    (hend : ∀ world', invariant (rolePermissions tablePrefix world sourceRoleId) world' →
      post (.ok ⟨true, (rolePermissions tablePrefix world sourceRoleId).length⟩) world') :
    wp (nocodb faults).contract (copyPermissions tablePrefix sourceRoleId targetRoleId) post
      world := by
  rw [copyPermissions, wp_bind]
  refine wp_getTableByName (fun _ => hfail _) fun w₁ h₁ => ?_
  rw [onOk_ok]
  cases hfound : resolve tablePrefix world.tables SystemTable.tablePermissions.name with
  | none => exact hfail _ _ h₁
  | some permissionsTable =>
      simp only [wp_bind, wp_ofExcept]
      cases hfilter : filterEq (js "role_id") (.number sourceRoleId) with
      | error exception => exact hfail _ _ h₁
      | ok filter =>
          rw [onOk_ok, wp_bind]
          refine wp_listAll (selectRows_filterEq hfilter (by decide) _)
            (fun _ _ h => hfail _ _ (h₁.trans h)) fun w₂ h₂ => ?_
          have hlisted : ((w₁.rows permissionsTable.id).rows.filter fun row =>
              row.cell (js "role_id") = .number sourceRoleId) =
              rolePermissions tablePrefix world sourceRoleId := by
            rw [rolePermissions, systemRows_eq hfound, ← h₁.rows]
          rw [onOk_ok, wp_bind, hlisted, List.length_map]
          -- the records that remain are those after the rows copied so far
          refine wp_forM
            (fun remaining world' => ∃ copied rest,
              rolePermissions tablePrefix world sourceRoleId = copied ++ rest ∧
              remaining = rest.map (flattenRecord none) ∧ invariant copied world')
            ?_ ?_ ⟨[], _, rfl, rfl, hstart w₂ (h₁.trans h₂)⟩
          · rintro perm remaining w₃ ⟨copied, rest, hsplit, hremaining, h₃⟩
            obtain ⟨row, rest, rfl, rfl, rfl⟩ := List.map_eq_cons_iff.mp hremaining.symm
            rw [wp_bind]
            refine wp_mono wp_setTablePermissions fun result w₄ h₄ => ?_
            cases result with
            | ok record =>
                exact ⟨copied ++ [row], rest, by rw [hsplit, List.append_assoc]; rfl, rfl,
                  hstep copied row rest w₃ w₄ hsplit h₃ h₄⟩
            | error exception => exact hstop copied exception w₃ w₄ h₃ h₄
          · rintro w₃ ⟨copied, rest, hsplit, hremaining, h₃⟩
            obtain rfl := List.map_eq_nil_iff.mp hremaining.symm
            rw [List.append_nil] at hsplit
            rw [← hsplit] at h₃
            exact hend w₃ h₃

/-- `copyPermissions` writes copies of some rows of the source role, also when it
fails. -/
theorem wp_copyPermissions {world : World} {sourceRoleId targetRoleId : JsNumber} :
    wp (nocodb faults).contract (copyPermissions tablePrefix sourceRoleId targetRoleId)
      (fun _ => PermissionsSetSome tablePrefix
        (copyDtos tablePrefix world sourceRoleId targetRoleId) world) world := by
  refine wp_copyPermissions_loop
    (fun _ => PermissionsSetSome tablePrefix
      (copyDtos tablePrefix world sourceRoleId targetRoleId) world)
    (fun _ _ h => .single (Or.inl h)) (fun _ h => .single (Or.inl h)) ?_
    (fun _ _ _ _ h hstop => h.tail (Or.inl hstop)) (fun _ h => h)
  intro copied row remaining middle world' hsplit h hset
  refine h.tail (Or.inr ⟨_, List.mem_map_of_mem ?_, hset⟩)
  rw [hsplit]
  exact List.mem_append_right _ List.mem_cons_self

/-- Deleting permission rows adds no row to any system table. -/
theorem DeletedFirst.mem_systemRows {roleId : JsNumber} {applied : Nat} {world world' : World}
    (h : DeletedFirst tablePrefix roleId applied world world') {table : SystemTable} {row : Row}
    (hrow : row ∈ systemRows tablePrefix world' table) :
    row ∈ systemRows tablePrefix world table := by
  unfold systemRows at hrow ⊢
  rw [h.tables] at hrow
  split at hrow
  · exact hrow
  · exact ((h.rows _ row).mp hrow).1

theorem DeletedFirst.of_unchanged {roleId : JsNumber} {world world' : World}
    (h : Unchanged world world') : DeletedFirst tablePrefix roleId 0 world world' where
  tables := h.tables
  cache := h.cache
  clock := h.clock
  rows tableId row := by
    rw [h.rows]
    simp

/-- Deleting the next permission row of the role. -/
theorem DeletedFirst.succ {roleId : JsNumber} {applied : Nat} {world middle earlier : World}
    {found : TableMeta} {row : Row} {rest : List Row}
    (hfound : resolve tablePrefix world.tables SystemTable.tablePermissions.name = some found)
    (hnext : (rolePermissions tablePrefix world roleId).drop applied = row :: rest)
    (h : DeletedFirst tablePrefix roleId applied world middle)
    (hearlier : Unchanged middle earlier) :
    DeletedFirst tablePrefix roleId (applied + 1) world
      (earlier.setTable found.id ((middle.rows found.id).delete (.ofNat row.id))) where
  tables := by rw [World.tables_setTable, hearlier.tables, h.tables]
  cache := by rw [World.cache_setTable, hearlier.cache, h.cache]
  clock := by
    rw [World.clock_setTable]
    exact h.clock.trans hearlier.clock
  rows tableId other := by
    have htake : (rolePermissions tablePrefix world roleId).take (applied + 1) =
        (rolePermissions tablePrefix world roleId).take applied ++ [row] := by
      rw [List.take_add, hnext]
      rfl
    rw [htake, List.map_append, List.mem_append]
    by_cases htable : tableId = found.id
    · subst htable
      have hpermissions : IsPermissionsTable tablePrefix world found.id := ⟨found, hfound, rfl⟩
      rw [World.rows_setTable_self, Table.mem_delete, h.rows]
      simp only [hpermissions, true_implies, List.map_cons, List.map_nil, List.mem_singleton]
      tauto
    · have hother : ¬ IsPermissionsTable tablePrefix world tableId := by
        rintro ⟨table, hresolve, rfl⟩
        rw [hfound] at hresolve
        exact htable (congrArg TableMeta.id (Option.some.inj hresolve)).symm
      rw [World.rows_setTable_of_ne _ _ htable, hearlier.rows, h.rows]
      simp [hother]

theorem DeletedFirst.all {roleId : JsNumber} {applied : Nat} {world world' : World}
    (h : DeletedFirst tablePrefix roleId applied world world')
    (hall : (rolePermissions tablePrefix world roleId).length ≤ applied) :
    DeletedFirst tablePrefix roleId (rolePermissions tablePrefix world roleId).length
      world world' where
  tables := h.tables
  cache := h.cache
  clock := h.clock
  rows := by
    have hrows := h.rows
    rw [List.take_of_length_le hall] at hrows
    rwa [List.take_length]

/-- The next permission row of the role is still there. -/
theorem DeletedFirst.mem_next {roleId : JsNumber} {applied : Nat} {world middle : World}
    {found : TableMeta} {row : Row} {rest : List Row}
    (hfound : resolve tablePrefix world.tables SystemTable.tablePermissions.name = some found)
    (hnext : (rolePermissions tablePrefix world roleId).drop applied = row :: rest)
    (h : DeletedFirst tablePrefix roleId applied world middle) :
    row ∈ (middle.rows found.id).rows := by
  have hsplit : rolePermissions tablePrefix world roleId =
      (rolePermissions tablePrefix world roleId).take applied ++ row :: rest := by
    rw [← hnext, List.take_append_drop]
  have hmem : row ∈ (world.rows found.id).rows := by
    have hrole : row ∈ rolePermissions tablePrefix world roleId := by
      rw [hsplit]
      simp
    rw [rolePermissions, systemRows_eq hfound] at hrole
    exact (List.mem_filter.mp hrole).1
  refine (h.rows found.id row).mpr ⟨hmem, fun _ hdeleted => ?_⟩
  -- keys are distinct, so the row is not among those before it
  have hkeys : ((rolePermissions tablePrefix world roleId).map Row.id).Nodup := by
    rw [rolePermissions, systemRows_eq hfound]
    exact (world.rows found.id).keys.sublist (List.filter_sublist.map Row.id)
  rw [hsplit, List.map_append, List.nodup_append] at hkeys
  exact hkeys.2.2 row.id hdeleted row.id (by simp) rfl

/-- `deleteRolePermissions` deletes the permission rows of the role one after the
other and clears the cache; when it fails it has deleted the first ones and not
cleared the cache. -/
theorem wp_deleteRolePermissions {world : World} {roleId : JsNumber} :
    wp (nocodb faults).contract (deleteRolePermissions tablePrefix roleId)
      (byOutcome
        (fun world' => ∃ middle,
          DeletedFirst tablePrefix roleId (rolePermissions tablePrefix world roleId).length
            world middle ∧
          Cleared none middle world')
        (fun world' => ∃ applied, DeletedFirst tablePrefix roleId applied world world'))
      world := by
  have hnone : ∀ world', Unchanged world world' →
      ∃ applied, DeletedFirst tablePrefix roleId applied world world' :=
    fun world' h => ⟨0, .of_unchanged h⟩
  rw [deleteRolePermissions, wp_bind]
  refine wp_getTableByName (fun _ _ h => hnone _ h) fun w₁ h₁ => ?_
  rw [onOk_ok]
  cases hfound : resolve tablePrefix world.tables SystemTable.tablePermissions.name with
  | none => exact hnone _ h₁
  | some permissionsTable =>
      simp only [wp_bind, wp_ofExcept]
      cases hfilter : filterEq (js "role_id") (.number roleId) with
      | error exception => exact hnone _ h₁
      | ok filter =>
          rw [onOk_ok, wp_bind]
          refine wp_listAll (selectRows_filterEq hfilter (by decide) _)
            (fun _ _ h => hnone _ (h₁.trans h)) fun w₂ h₂ => ?_
          rw [onOk_ok, wp_bind]
          -- the records that remain are those after the rows deleted so far
          refine wp_forM
            (fun remaining world' => ∃ applied,
              remaining = ((rolePermissions tablePrefix world roleId).drop applied).map
                (flattenRecord none) ∧
              DeletedFirst tablePrefix roleId applied world world') ?_ ?_
            ⟨0, ?_, .of_unchanged (h₁.trans h₂)⟩
          · rintro perm remaining w₃ ⟨applied, hremaining, h₃⟩
            obtain ⟨row, rest, hnext, rfl, rfl⟩ := List.map_eq_cons_iff.mp hremaining.symm
            rw [wp_bind, extractNumericId_flattenRecord, wp_ofExcept, onOk_ok]
            refine wp_delete (h₃.mem_next hfound hnext) ?_ ?_
            · intro _ w₄ h₄
              refine ⟨applied, h₃.tables ▸ h₄.tables, h₃.cache ▸ h₄.cache,
                h₃.clock.trans h₄.clock, ?_⟩
              rw [h₄.rows]
              exact h₃.rows
            · intro w₄ h₄
              refine ⟨applied + 1, ?_, h₃.succ hfound hnext h₄⟩
              rw [← List.drop_drop, hnext]
              rfl
          · rintro w₃ ⟨applied, hremaining, h₃⟩
            have hall := List.drop_eq_nil_iff.mp (List.map_eq_nil_iff.mp hremaining.symm)
            rw [onOk_ok]
            exact wp_clearCache_cleared fun w₄ hcleared => ⟨w₃, h₃.all hall, hcleared⟩
          · rw [rolePermissions, systemRows_eq hfound, h₁.rows]
            rfl

end

end Permissions
end NocoMiddleware
