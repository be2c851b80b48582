import NocoMiddleware.Permissions.WorkspacePermissions
import NocoMiddleware.Runs.PermissionCopies

/-!
# Initialization of a role

`initializePermissionsForRole` is a fold over the tables of the workspace where every title
yields a name that the lookup leaves as it is.  A name that cannot be quoted stops it, and a
name that the lookup trims is never found again: a second run adds a second row for it.
-/

namespace NocoMiddleware
namespace Runs

open NocoMiddleware.Js NocoMiddleware.Filter NocoMiddleware.Tables NocoMiddleware.Store
open NocoMiddleware.Permissions NocoMiddleware.Permissions.PermissionsService
open NocoMiddleware.Data NocoMiddleware.Foundation

/-- The role has one row with the default flags for every table of the workspace; all other
rows stay. -/
structure RoleInitialized (tablePrefix : JsString) (roleId : JsNumber)
    (permissions : CrudAction → Option Bool) (world world' : World) : Prop where
  tables : world'.tables = world.tables
  elsewhere : ∀ tableId, ¬ IsPermissionsTable tablePrefix world tableId →
    world'.rows tableId = world.rows tableId
  rows : ∀ name ∈ getAllWorkspaceTables tablePrefix world.tables,
    ∃ row ∈ systemRows tablePrefix world' .tablePermissions,
      permissionKey row = some (roleId, name) ∧
      (∀ action : CrudAction,
        row.cell action.flag = .boolean ((permissions action).getD false)) ∧
      ∀ other ∈ systemRows tablePrefix world' .tablePermissions,
        permissionKey other = some (roleId, name) → other = row
  others : ∀ row, (∀ name ∈ getAllWorkspaceTables tablePrefix world.tables,
      permissionKey row ≠ some (roleId, name)) →
    (row ∈ systemRows tablePrefix world' .tablePermissions ↔
      row ∈ systemRows tablePrefix world .tablePermissions)

/-- Without failing requests, every run succeeds and initializes the role, and every second
run succeeds and changes nothing. -/
def Initializes (tablePrefix : JsString) (roleId : JsNumber)
    (permissions : CrudAction → Option Bool) (world : World) : Prop :=
  ∀ result world', Exec (nocodb false).contract
      (initializePermissionsForRole tablePrefix roleId permissions) world result world' →
    result = .ok () ∧ RoleInitialized tablePrefix roleId permissions world world' ∧
      ∀ again final, Exec (nocodb false).contract
          (initializePermissionsForRole tablePrefix roleId permissions) world' again final →
        again = .ok () ∧ SameStore world' final

/-- There is nothing to initialize, or the permission table is there, the role id is written
without an exponent, and every name can be quoted and is not changed by trimming. -/
def Initializable (tablePrefix : JsString) (roleId : JsNumber) (tables : List TableMeta) : Prop :=
  getAllWorkspaceTables tablePrefix tables = [] ∨
    (resolve tablePrefix tables SystemTable.tablePermissions.name).isSome = true ∧
      PlainNumber roleId ∧
      ∀ name ∈ getAllWorkspaceTables tablePrefix tables, Quotable name ∧ trim name = name

section

variable {tablePrefix : JsString} {roleId : JsNumber} {permissions : CrudAction → Option Bool}
  {world world' middle last : World} {name : JsString} {row : Row}

/-! ## Names that are found again -/

theorem Initializable.settable (h : Initializable tablePrefix roleId world.tables)
    (hname : name ∈ getAllWorkspaceTables tablePrefix world.tables) :
    Settable tablePrefix world.tables roleId name := by
  rcases h with hnil | ⟨hfound, hrole, hnames⟩
  · rw [hnil] at hname
    cases hname
  · obtain ⟨hquotable, htrimmed⟩ := hnames name hname
    refine ⟨hfound, hrole, ?_⟩
    rwa [htrimmed]

theorem Initializable.addresses (h : Initializable tablePrefix roleId world.tables)
    (hname : name ∈ getAllWorkspaceTables tablePrefix world.tables) :
    Addresses roleId (permissionsDto roleId permissions name) name := by
  rcases h with hnil | ⟨-, hrole, hnames⟩
  · rw [hnil] at hname
    cases hname
  · exact ⟨rfl, hrole.imp fun _ h => h.1, rfl, (hnames name hname).2⟩

/-- A run that succeeds has set the permissions on every table. -/
theorem settable_of_exec (hexec : Exec (nocodb false).contract
      (initializePermissionsForRole tablePrefix roleId permissions) world (.ok ()) world') :
    ∀ name ∈ getAllWorkspaceTables tablePrefix world.tables,
      Settable tablePrefix world.tables roleId name := by
  have hrun := wp_sound (wp_initializePermissionsForRole (fun _ _ => True) ?_ ?_) hexec
  · exact hrun.1
  · intro _ _
    trivial
  · intro _ _ _ _ _ _ _ _
    trivial

/-- The last dto for a table of the workspace. -/
theorem lastDto_permissionsDto {names : List JsString} (hname : name ∈ names) :
    lastDto (names.map (permissionsDto roleId permissions)) name =
      some (permissionsDto roleId permissions name) := by
  have hmem := List.mem_map_of_mem (f := permissionsDto roleId permissions) hname
  obtain ⟨last, hlast⟩ := lastDto_of_mem hmem rfl
  obtain ⟨hmem, hlastName⟩ := of_lastDto hlast
  obtain ⟨other, -, rfl⟩ := List.mem_map.mp hmem
  obtain rfl : other = name := JsValue.string.inj hlastName
  exact hlast

theorem lastDto_permissionsDto_of_notMem {names : List JsString} (hname : name ∉ names) :
    lastDto (names.map (permissionsDto roleId permissions)) name = none := by
  cases hlast : lastDto (names.map (permissionsDto roleId permissions)) name with
  | none => rfl
  | some dto =>
      obtain ⟨hmem, hlastName⟩ := of_lastDto hlast
      obtain ⟨other, hother, rfl⟩ := List.mem_map.mp hmem
      obtain rfl : other = name := JsValue.string.inj hlastName
      exact absurd hother hname

/-- A run over names that can be set writes their dtos. -/
theorem dtosWritten_of_exec {result : Except Exception Unit}
    (hunique : UniqueKeys permissionKey (systemRows tablePrefix world .tablePermissions))
    (h : Initializable tablePrefix roleId world.tables)
    (hexec : Exec (nocodb false).contract
      (initializePermissionsForRole tablePrefix roleId permissions) world result world') :
    result = .ok () ∧ DtosWritten tablePrefix roleId
      ((getAllWorkspaceTables tablePrefix world.tables).map (permissionsDto roleId permissions))
      world world' := by
  have hrun := wp_sound (wp_initializePermissionsForRole
    (fun completed => DtosWritten tablePrefix roleId
      (completed.map (permissionsDto roleId permissions)) world) ?_ ?_) hexec
  · cases result with
    | ok answer => exact ⟨rfl, hrun.2⟩
    | error exception =>
        rcases hrun with hfaults | ⟨name, hname, hnot⟩
        · cases hfaults
        · exact absurd (h.settable hname) hnot
  · intro w hunchanged
    exact .refl hunique hunchanged
  · intro completed name remaining w w' hsplit hwritten hset
    have hname : name ∈ getAllWorkspaceTables tablePrefix world.tables := by
      rw [hsplit]
      exact List.mem_append_right _ List.mem_cons_self
    rw [List.map_append]
    exact hwritten.concat (h.addresses hname) hset

theorem roleInitialized_of_dtosWritten
    (h : DtosWritten tablePrefix roleId
      ((getAllWorkspaceTables tablePrefix world.tables).map (permissionsDto roleId permissions))
      world world') : RoleInitialized tablePrefix roleId permissions world world' where
  tables := h.tables
  elsewhere := h.elsewhere
  rows name hname := by
    have hlast : lastDto _ name = some (permissionsDto roleId permissions name) :=
      lastDto_permissionsDto hname
    obtain ⟨row, hrow, hkey⟩ := h.rows.present name _ hlast
    refine ⟨row, hrow, hkey, fun action => ?_, fun other hother hsame => ?_⟩
    · rw [h.rows.flags row hrow name _ hkey hlast, allows_permissionsDto]
    · exact h.rows.unique _ other hother row hrow hsame hkey
  others row huntouched := by
    apply h.rows.others row
    intro name hkey
    apply lastDto_permissionsDto_of_notMem
    intro hname
    exact huntouched name hname hkey

/-- A second run finds every row as it would write it. -/
theorem sameStore_of_exec
    (h : Initializable tablePrefix roleId world.tables)
    (hunique : UniqueKeys permissionKey (systemRows tablePrefix world .tablePermissions))
    (hrows : ∀ name ∈ getAllWorkspaceTables tablePrefix world.tables,
      ∃ row ∈ systemRows tablePrefix world .tablePermissions,
        permissionKey row = some (roleId, name) ∧
        ∀ action : CrudAction, row.cell action.flag = .boolean ((permissions action).getD false))
    (hexec : Exec (nocodb false).contract
      (initializePermissionsForRole tablePrefix roleId permissions) world (.ok ()) world') :
    SameStore world world' := by
  have hrun := wp_sound (wp_initializePermissionsForRole (fun _ => SameStore world) ?_ ?_) hexec
  · exact hrun.2
  · intro w hunchanged
    refine ⟨hunchanged.tables, fun tableId => ?_⟩
    rw [hunchanged.rows]
    exact SameRows.refl _
  · intro completed name remaining w w' hsplit hsame hset
    have hname : name ∈ getAllWorkspaceTables tablePrefix world.tables := by
      rw [hsplit]
      exact List.mem_append_right _ List.mem_cons_self
    obtain ⟨row, hrow, hkey, hflags⟩ := hrows name hname
    refine ⟨hset.tables.trans hsame.tables, fun tableId => ?_⟩
    apply (hsame.rows tableId).trans
    refine sameRows_of_permissionsSet (h.addresses hname) hunique hrow hkey ?_
      (hsame.systemRows _) hset tableId
    intro action
    rw [hflags, allows_permissionsDto]

/-! ## Names that are not -/

/-- The table name of the row is a text that no lookup asks for. -/
def Hidden (row : Row) : Prop :=
  ∃ name, row.cell (js "table_name") = .string name ∧ trim name ≠ name

theorem hidden_of_permissionKey (hkey : permissionKey row = some (roleId, name))
    (htrim : trim name ≠ name) : Hidden row :=
  ⟨name, ((permissionKey_eq_some_iff row _ _).mp hkey).2, htrim⟩

/-- A lookup asks for a trimmed name. -/
theorem not_hidden_of_matches {tableName : JsString}
    (h : Matches roleId (.string tableName) row) : ¬ Hidden row := by
  rintro ⟨name, hcell, htrim⟩
  have hfield : fieldTitle (js "table_name") = js "table_name" := by decide
  have hsatisfies : satisfies row ⟨fieldTitle (js "table_name"), js "eq",
      [.string (trim tableName)]⟩ = true := h.2
  rw [satisfies_eq, hfield, hcell] at hsatisfies
  obtain rfl := JsValue.string.inj hsatisfies
  exact htrim (trim_trim tableName)

/-- Setting permissions leaves hidden rows alone, and writes a row that is not one of them. -/
theorem permissionsSet_hidden
    (h : PermissionsSet tablePrefix (permissionsDto roleId permissions name) middle last) :
    (∀ row ∈ systemRows tablePrefix middle .tablePermissions, Hidden row →
        row ∈ systemRows tablePrefix last .tablePermissions) ∧
      ∃ written ∈ systemRows tablePrefix last .tablePermissions,
        permissionKey written = some (roleId, name) ∧
        ∀ row ∈ systemRows tablePrefix middle .tablePermissions, Hidden row →
          row.id ≠ written.id := by
  obtain ⟨w, ⟨hfinite, hupserted⟩, hcleared⟩ := h
  have hkey : ∀ {written : Row} {rest}, written.cells =
      toCells (permissionData (permissionsDto roleId permissions name)) ++ rest →
      permissionKey written = some (roleId, name) := by
    intro written rest hcells
    apply (permissionKey_eq_some_iff written _ _).mpr
    exact ⟨cell_role_id_of_written hfinite hcells,
      cell_table_name_of_written rfl hfinite hcells⟩
  rw [hcleared.systemRows_eq]
  rcases hupserted with ⟨found, hmatches, hchanged⟩ | ⟨-, created, hcells, hchanged⟩
  · obtain ⟨before, after, hbefore, hafter, hfound, rfl⟩ := hchanged.applies
    rw [hbefore, hafter, rows_update hfound]
    have hne : ∀ row, Hidden row → row ≠ found := by
      rintro row hhidden rfl
      exact not_hidden_of_matches hmatches hhidden
    refine ⟨fun row hrow hhidden => ?_, _, List.mem_map_of_mem hfound, ?_, ?_⟩
    · exact List.mem_map.mpr ⟨row, hrow, if_neg (hne row hhidden)⟩
    · rw [if_pos rfl]
      exact hkey rfl
    · intro row hrow hhidden hid
      rw [if_pos rfl, Row.id_patch] at hid
      exact hne row hhidden (Table.eq_of_id_eq hrow hfound hid)
  · obtain ⟨before, after, hbefore, hafter, hfresh, rfl⟩ := hchanged.applies
    rw [hbefore, hafter, Table.rows_insert]
    refine ⟨fun row hrow _ => List.mem_append_left _ hrow, created, ?_, ?_, ?_⟩
    · exact List.mem_append_right _ (List.mem_singleton_self created)
    · apply hkey
      rw [hcells, List.append_nil]
    · intro row hrow _ hid
      exact hfresh (List.mem_map.mpr ⟨row, hrow, hid⟩)

/-- A run writes a row for a name that lookups trim, which is none of the hidden rows that
were there. -/
theorem hidden_of_exec (hname : name ∈ getAllWorkspaceTables tablePrefix world.tables)
    (htrim : trim name ≠ name)
    (hexec : Exec (nocodb false).contract
      (initializePermissionsForRole tablePrefix roleId permissions) world (.ok ()) world') :
    ∃ written ∈ systemRows tablePrefix world' .tablePermissions,
      permissionKey written = some (roleId, name) ∧
      ∀ row ∈ systemRows tablePrefix world .tablePermissions, Hidden row →
        row.id ≠ written.id := by
  have hrun := wp_sound (wp_initializePermissionsForRole
    (fun completed w =>
      (∀ row ∈ systemRows tablePrefix world .tablePermissions, Hidden row →
        row ∈ systemRows tablePrefix w .tablePermissions) ∧
      (name ∈ completed → ∃ written ∈ systemRows tablePrefix w .tablePermissions,
        permissionKey written = some (roleId, name) ∧
        ∀ row ∈ systemRows tablePrefix world .tablePermissions, Hidden row →
          row.id ≠ written.id)) ?_ ?_) hexec
  · exact hrun.2.2 hname
  · intro w hunchanged
    rw [hunchanged.systemRows_eq]
    exact ⟨fun row hrow _ => hrow, by simp⟩
  · rintro completed other remaining w w' - ⟨hkept, hwritten⟩ hset
    obtain ⟨hkeeps, written, hmem, hkey, hapart⟩ := permissionsSet_hidden hset
    refine ⟨fun row hrow hhidden => hkeeps row (hkept row hrow hhidden) hhidden, ?_⟩
    intro hcompleted
    rcases List.mem_append.mp hcompleted with hearlier | hnow
    · obtain ⟨earlier, hearlier, hearlierKey, hearlierApart⟩ := hwritten hearlier
      have hhidden := hidden_of_permissionKey hearlierKey htrim
      exact ⟨earlier, hkeeps earlier hearlier hhidden, hearlierKey, hearlierApart⟩
    · obtain rfl := List.mem_singleton.mp hnow
      refine ⟨written, hmem, hkey, fun row hrow hhidden => ?_⟩
      exact hapart row (hkept row hrow hhidden) hhidden

/-- Where every second run changes nothing, no name is trimmed. -/
theorem trim_of_initializes {result : Except Exception Unit}
    (h : Initializes tablePrefix roleId permissions world)
    (hexec : Exec (nocodb false).contract
      (initializePermissionsForRole tablePrefix roleId permissions) world result world')
    (hname : name ∈ getAllWorkspaceTables tablePrefix world.tables) : trim name = name := by
  by_contra htrim
  obtain ⟨-, hinitialized, hagain⟩ := h result world' hexec
  obtain ⟨row, hrow, hkey, -, honly⟩ := hinitialized.rows name hname
  obtain ⟨again, final, hexec'⟩ := exists_exec (nocodb_total false)
    (initializePermissionsForRole tablePrefix roleId permissions) world'
  obtain ⟨rfl, hsame⟩ := hagain again final hexec'
  -- the second run has written a second row with the key
  rw [← hinitialized.tables] at hname
  obtain ⟨written, hwritten, hwrittenKey, hapart⟩ := hidden_of_exec hname htrim hexec'
  obtain ⟨old, hold, hsameRow⟩ := (hsame.systemRows .tablePermissions).of_mem hwritten
  have holdKey := (permissionKey_of_sameRow hsameRow).symm.trans hwrittenKey
  obtain rfl := honly old hold holdKey
  exact hapart old hold (hidden_of_permissionKey hkey htrim) hsameRow.id.symm

/-! ## Both -/

/-- In a store with at most one row of a role and a table, a role is initialized on the whole
workspace, and stays so, exactly if every name can be looked up as it is stored. -/
theorem initializes_iff
    (hunique : UniqueKeys permissionKey (systemRows tablePrefix world .tablePermissions)) :
    Initializes tablePrefix roleId permissions world ↔
      Initializable tablePrefix roleId world.tables := by
  constructor
  · intro h
    obtain ⟨result, world', hexec⟩ := exists_exec (nocodb_total false)
      (initializePermissionsForRole tablePrefix roleId permissions) world
    obtain ⟨rfl, -⟩ := h result world' hexec
    have hsettable := settable_of_exec hexec
    by_cases hnil : getAllWorkspaceTables tablePrefix world.tables = []
    · exact Or.inl hnil
    · obtain ⟨first, hfirst⟩ := List.exists_mem_of_ne_nil _ hnil
      refine Or.inr ⟨(hsettable first hfirst).found, (hsettable first hfirst).role, ?_⟩
      intro name hname
      have htrim := trim_of_initializes h hexec hname
      have hquotable := (hsettable name hname).quotable
      rw [htrim] at hquotable
      exact ⟨hquotable, htrim⟩
  · intro h result world' hexec
    obtain ⟨hresult, hwritten⟩ := dtosWritten_of_exec hunique h hexec
    have hinitialized := roleInitialized_of_dtosWritten hwritten
    refine ⟨hresult, hinitialized, fun again final hexec' => ?_⟩
    -- the second run starts from a store in which the names are the same
    have h' : Initializable tablePrefix roleId world'.tables := by
      rwa [hinitialized.tables]
    obtain ⟨rfl, -⟩ := dtosWritten_of_exec hwritten.rows.unique h' hexec'
    refine ⟨rfl, ?_⟩
    apply sameStore_of_exec h' hwritten.rows.unique _ hexec'
    rw [hinitialized.tables]
    intro name hname
    obtain ⟨row, hrow, hkey, hflags, -⟩ := hinitialized.rows name hname
    exact ⟨row, hrow, hkey, hflags⟩

end

/-! ## Runs -/

/-- A base with the permission table and tables of these names, all without rows. -/
def workspaceOf (names : List JsString) : World where
  tables := (SystemTable.tablePermissions.name :: names).map fun name =>
    ⟨name, js "nc_" ++ name, none⟩
  rows _ := Table.empty
  cache := .empty
  clock := 0

/-- The right to read. -/
def readOnly : CrudAction → Option Bool
  | .read => some true
  | _ => none

theorem uniqueKeys_workspaceOf (names : List JsString) :
    UniqueKeys permissionKey (systemRows (js "nc_") (workspaceOf names) .tablePermissions) := by
  intro key first hfirst
  have hnone : systemRows (js "nc_") (workspaceOf names) .tablePermissions = [] := by
    unfold systemRows
    split
    · rfl
    · rfl
  rw [hnone] at hfirst
  cases hfirst

theorem initializes_iff_orders :
    Initializes (js "nc_") (.ofNat 3) readOnly (workspaceOf [js "orders", js "orders 2024"]) := by
  apply (initializes_iff (uniqueKeys_workspaceOf _)).mpr
  refine Or.inr ⟨by decide, ⟨_, rfl, by decide⟩, ?_⟩
  decide

/-- NocoDB answers at once and would give new keys in order. -/
def inOrder (count : Nat) : List Choice :=
  (List.range count).map fun newId => ⟨false, newId + 1, [], 0⟩

/-- The initialization of a role 3 that may read. -/
def initializeReader : Service Unit :=
  initializePermissionsForRole (js "nc_") (.ofNat 3) readOnly

/-- A base with a title that has a quotation mark. -/
def quotedWorkspace : World :=
  workspaceOf [js "3\" pipes", js "orders"]

/-- A base with a title that has a space after the prefix. -/
def paddedWorkspace : World :=
  workspaceOf [js "orders", js " orders"]

/-- The quotation mark stops the initialization before the next table; the name with the space
takes the row of the table without it. -/
theorem titles_not_initialized :
    UniqueKeys permissionKey (systemRows (js "nc_") quotedWorkspace .tablePermissions) ∧
      ¬ Initializes (js "nc_") (.ofNat 3) readOnly quotedWorkspace ∧
      (∃ world', Exec (nocodb false).contract initializeReader quotedWorkspace
          (.error (.badRequest (js "Invalid filter value"))) world' ∧
        (systemRows (js "nc_") world' .tablePermissions).map permissionKey =
          [some (.ofNat 3, js "table_permissions")]) ∧
      ¬ Initializes (js "nc_") (.ofNat 3) readOnly paddedWorkspace ∧
      ∃ world', Exec (nocodb false).contract initializeReader paddedWorkspace (.ok ()) world' ∧
        (systemRows (js "nc_") world' .tablePermissions).map permissionKey =
          [some (.ofNat 3, js "table_permissions"), some (.ofNat 3, js " orders")] := by
  have hquoted : Exec (nocodb false).contract initializeReader quotedWorkspace
      (.error (.badRequest (js "Invalid filter value")))
      (settle false initializeReader (inOrder 6) quotedWorkspace) :=
    exec_of_settle (by decide +kernel)
  have hpadded : Exec (nocodb false).contract initializeReader paddedWorkspace (.ok ())
      (settle false initializeReader (inOrder 13) paddedWorkspace) :=
    exec_of_settle (by decide +kernel)
  refine ⟨uniqueKeys_workspaceOf _, fun h => ?_, ⟨_, hquoted, by decide +kernel⟩, fun h => ?_,
    _, hpadded, by decide +kernel⟩
  · cases (h _ _ hquoted).1
  · -- no row is left for the table without the space
    obtain ⟨-, hinitialized, -⟩ := h _ _ hpadded
    obtain ⟨row, hrow, hkey, -⟩ := hinitialized.rows (js "orders") (by decide)
    have hkeys : some (.ofNat 3, js "orders") ∈ (systemRows (js "nc_")
        (settle false initializeReader (inOrder 13) paddedWorkspace) .tablePermissions).map
          permissionKey := List.mem_map.mpr ⟨row, hrow, hkey⟩
    revert hkeys
    decide +kernel

end Runs
end NocoMiddleware
