import NocoMiddleware.Permissions.PermissionsService

/-!
# What the system tables grant

`Grants` states, on the rows of the four system tables, which actions a user may
perform: an assignment, an existing role and a permission row with a ticked flag.
It depends only on which rows there are, not on their order or number.
-/

namespace NocoMiddleware
namespace Permissions

open NocoMiddleware.Js NocoMiddleware.Filter NocoMiddleware.Tables NocoMiddleware.Store

/-- The row assigns the role to the user. -/
def Assigns (row : Row) (userId : JsNumber) (roleId : Nat) : Prop :=
  row.cell (js "user_id") = .number userId ∧
    (row.cell (js "role_id")).toNumber = .ofNat roleId

/-- The row grants the action on the table to the role. -/
def Permits (row : Row) (roleId : Nat) (table : JsString) (action : CrudAction) : Prop :=
  row.cell (js "role_id") = .number (.ofNat roleId) ∧
    row.cell (js "table_name") = .string table ∧ table ≠ [] ∧
    (row.cell action.flag).truthy = true

/-- The user has the role, and the role exists. -/
def HoldsRole (tablePrefix : JsString) (world : World) (userId : JsNumber) (roleId : Nat) :
    Prop :=
  0 < roleId ∧ (∃ row ∈ systemRows tablePrefix world .userRoles, Assigns row userId roleId) ∧
    ∃ row ∈ systemRows tablePrefix world .roles, row.id = roleId

/-- The system tables grant the action on the table to the user. -/
def Grants (tablePrefix : JsString) (world : World) (userId : JsNumber) (table : JsString)
    (action : CrudAction) : Prop :=
  (∀ system : SystemTable, (resolve tablePrefix world.tables system.name).isSome = true) ∧
    ∃ roleId, HoldsRole tablePrefix world userId roleId ∧
      ∃ row ∈ systemRows tablePrefix world .tablePermissions, Permits row roleId table action

/-- Two worlds with the same tables hold the same assignments, roles and
permissions, in any order, any number of times and, but for roles, under any
keys. -/
structure SameContent (tablePrefix : JsString) (first second : World) : Prop where
  tables : second.tables = first.tables
  assignments : ∀ cells,
    (∃ row ∈ systemRows tablePrefix first .userRoles, row.cells = cells) ↔
      ∃ row ∈ systemRows tablePrefix second .userRoles, row.cells = cells
  roles : ∀ id,
    (∃ row ∈ systemRows tablePrefix first .roles, row.id = id) ↔
      ∃ row ∈ systemRows tablePrefix second .roles, row.id = id
  permissions : ∀ cells,
    (∃ row ∈ systemRows tablePrefix first .tablePermissions, row.cells = cells) ↔
      ∃ row ∈ systemRows tablePrefix second .tablePermissions, row.cells = cells

/-- A property of the cells of a row that some row has is one that some row of
equal content has. -/
private theorem exists_row_congr {first second : List Row} {p : Row → Prop}
    (hcells : ∀ row other : Row, row.cells = other.cells → (p row ↔ p other))
    (hsame : ∀ cells, (∃ row ∈ first, row.cells = cells) ↔ ∃ row ∈ second, row.cells = cells) :
    (∃ row ∈ first, p row) ↔ ∃ row ∈ second, p row := by
  constructor
  · rintro ⟨row, hrow, hp⟩
    obtain ⟨other, hother, heq⟩ := (hsame row.cells).mp ⟨row, hrow, rfl⟩
    exact ⟨other, hother, (hcells row other heq.symm).mp hp⟩
  · rintro ⟨row, hrow, hp⟩
    obtain ⟨other, hother, heq⟩ := (hsame row.cells).mpr ⟨row, hrow, rfl⟩
    exact ⟨other, hother, (hcells row other heq.symm).mp hp⟩

private theorem cell_congr {row other : Row} (h : row.cells = other.cells) {title : JsString}
    (htitle : title ≠ primaryKeyField) : row.cell title = other.cell title := by
  simp [Row.cell, htitle, h]

/-- The grants depend on the content of the system tables only. -/
theorem SameContent.grants_iff {tablePrefix : JsString} {first second : World}
    (h : SameContent tablePrefix first second) (userId : JsNumber) (table : JsString)
    (action : CrudAction) :
    Grants tablePrefix first userId table action ↔
      Grants tablePrefix second userId table action := by
  have hassigns : ∀ roleId,
      (∃ row ∈ systemRows tablePrefix first .userRoles, Assigns row userId roleId) ↔
        ∃ row ∈ systemRows tablePrefix second .userRoles, Assigns row userId roleId := by
    intro roleId
    refine exists_row_congr (fun row other heq => ?_) h.assignments
    rw [Assigns, Assigns, cell_congr heq (by decide), cell_congr heq (by decide)]
  have hpermits : ∀ roleId,
      (∃ row ∈ systemRows tablePrefix first .tablePermissions,
          Permits row roleId table action) ↔
        ∃ row ∈ systemRows tablePrefix second .tablePermissions,
          Permits row roleId table action := by
    intro roleId
    refine exists_row_congr (fun row other heq => ?_) h.permissions
    have hflag : action.flag ≠ primaryKeyField := by
      cases action <;> decide
    rw [Permits, Permits, cell_congr heq (by decide), cell_congr heq (by decide),
      cell_congr heq hflag]
  simp only [Grants, HoldsRole, h.tables, hassigns, h.roles, hpermits]

/-! ## Filters on the system tables -/

/-- `filterEq` on a finite number. -/
theorem filterEq_finite {field : JsString} (hfield : filterFieldPattern.test field = true)
    (x : Decimal) : ∃ filter, filterEq field (.number (.finite x)) = .ok filter := by
  simp [filterEq, sanitizeFilterField, hfield, formatFilterValue, bind, Except.bind, pure,
    Except.pure]

/-- `filterEq` on a number selects the rows with that number. -/
theorem selectRows_filterEq {field filter : JsString} {value : JsNumber}
    (h : filterEq field (.number value) = .ok filter) (hid : field ≠ js "id")
    (rows : List Row) :
    selectRows filter rows = some (rows.filter fun row => row.cell field = .number value) := by
  have hrun : (FilterCall.filterEq field (.number value)).run = .ok filter := h
  rw [selectRows_of_run hrun]
  congr 1
  apply List.filter_congr
  intro row _
  rw [Bool.eq_iff_iff, decide_eq_true_eq]
  simp only [FilterCall.requested, fieldTitle, hid, if_false, FilterValue.requested]
  exact satisfies_eq row field (.number value)

/-- `filterIn` on a nonempty list of natural numbers. -/
theorem filterIn_naturals {field : JsString} (hfield : filterFieldPattern.test field = true)
    {ids : List JsNumber} (hne : ids ≠ []) (hids : ∀ id ∈ ids, ∃ n, id = .ofNat n) :
    ∃ filter, filterIn field (ids.map FilterValue.number) = .ok filter := by
  have hformat : ∀ ids : List JsNumber, (∀ id ∈ ids, ∃ n, id = .ofNat n) →
      ∃ texts, (ids.map FilterValue.number).mapM formatFilterValue = .ok texts := by
    intro ids
    induction ids with
    | nil => exact fun _ => ⟨[], rfl⟩
    | cons id ids ih =>
        intro hids
        obtain ⟨n, rfl⟩ := hids id List.mem_cons_self
        obtain ⟨texts, htexts⟩ := ih fun id hid => hids id (List.mem_cons_of_mem _ hid)
        refine ⟨(Decimal.ofNat n).text :: texts, ?_⟩
        simp [List.mapM_cons, htexts, formatFilterValue, JsNumber.ofNat, bind, Except.bind, pure,
          Except.pure]
  obtain ⟨texts, htexts⟩ := hformat ids hids
  have hvalues : ids.map FilterValue.number ≠ [] := by simpa using hne
  simp [filterIn, hvalues, sanitizeFilterField, hfield, htexts, bind, Except.bind, pure,
    Except.pure]

/-- `filterIn` on numbers selects the rows with one of these numbers. -/
theorem selectRows_filterIn {field filter : JsString} {ids : List JsNumber}
    (h : filterIn field (ids.map FilterValue.number) = .ok filter) (rows : List Row) :
    selectRows filter rows =
      some (rows.filter fun row => row.cell (fieldTitle field) ∈ ids.map JsValue.number) := by
  have hrun : (FilterCall.filterIn field (ids.map FilterValue.number)).run = .ok filter := h
  rw [selectRows_of_run hrun]
  congr 1
  apply List.filter_congr
  intro row _
  rw [Bool.eq_iff_iff, decide_eq_true_eq]
  simp only [FilterCall.requested, List.map_map]
  exact satisfies_in row _ _

/-! ## The computations of `getUserPermissions` -/

theorem mem_assignedRoleIds {records : List NocoRecord} {id : JsNumber} :
    id ∈ assignedRoleIds records ↔
      (∃ record ∈ records, (record.get (js "role_id")).toNumber = id) ∧
        ∃ n : Nat, 0 < n ∧ id = .ofNat n := by
  rw [assignedRoleIds, List.mem_eraseDups, List.mem_filter, List.mem_map,
    JsNumber.positive_integer_iff]

/-- The map allows the action on the table. -/
def MapAllows (map : OrderedMap JsValue ActionSet) (table : JsString) (action : CrudAction) :
    Prop :=
  ∃ actions, map.get (.string table) = some actions ∧ action ∈ actions

theorem allows_iff (value : UserPermissions) (table : JsString) (action : CrudAction) :
    value.allows table action = true ↔ MapAllows value.permissions table action := by
  unfold UserPermissions.allows MapAllows
  cases value.permissions.get (.string table) with
  | none => simp
  | some actions => simp

theorem mem_addActions (perm : NocoRecord) (actions : ActionSet) (action : CrudAction) :
    action ∈ addActions perm actions ↔
      action ∈ actions ∨ (perm.get action.flag).truthy = true := by
  -- the loop over the flags, from any set that was collected before
  have hfold : ∀ (flags : List CrudAction) (start : ActionSet),
      action ∈ flags.foldl (fun actions action =>
          if (perm.get action.flag).truthy then actions.add action else actions) start ↔
        action ∈ start ∨ (action ∈ flags ∧ (perm.get action.flag).truthy = true) := by
    intro flags
    induction flags with
    | nil => simp
    | cons flag flags ih =>
        intro start
        rw [List.foldl_cons, ih]
        by_cases hflag : (perm.get flag.flag).truthy = true
        · rw [if_pos hflag, ActionSet.mem_add, List.mem_cons]
          constructor
          · rintro ((hstart | rfl) | ⟨hmem, htruthy⟩)
            · exact Or.inl hstart
            · exact Or.inr ⟨Or.inl rfl, hflag⟩
            · exact Or.inr ⟨Or.inr hmem, htruthy⟩
          · rintro (hstart | ⟨rfl | hmem, htruthy⟩)
            · exact Or.inl (Or.inl hstart)
            · exact Or.inl (Or.inr rfl)
            · exact Or.inr ⟨hmem, htruthy⟩
        · rw [if_neg hflag, List.mem_cons]
          constructor
          · rintro (hstart | ⟨hmem, htruthy⟩)
            · exact Or.inl hstart
            · exact Or.inr ⟨Or.inr hmem, htruthy⟩
          · rintro (hstart | ⟨rfl | hmem, htruthy⟩)
            · exact Or.inl hstart
            · exact absurd htruthy hflag
            · exact Or.inr ⟨hmem, htruthy⟩
  have hall : action ∈ [CrudAction.create, .read, .update, .delete] := by
    cases action <;> simp
  rw [addActions, hfold]
  simp [hall]

theorem mapAllows_addPermission (existingRoleIds : List JsNumber)
    (map : OrderedMap JsValue ActionSet) (perm : NocoRecord) (table : JsString)
    (action : CrudAction) :
    MapAllows (addPermission existingRoleIds map perm) table action ↔
      MapAllows map table action ∨
        (perm.get (js "table_name") = .string table ∧ table ≠ [] ∧
          (perm.get (js "role_id")).toNumber ∈ existingRoleIds ∧
          (perm.get action.flag).truthy = true) := by
  unfold addPermission
  simp only
  split
  · next hskip =>
      -- the record is skipped: its table name is empty or its role is gone
      have hnot : ¬ (perm.get (js "table_name") = .string table ∧ table ≠ [] ∧
          (perm.get (js "role_id")).toNumber ∈ existingRoleIds ∧
          (perm.get action.flag).truthy = true) := by
        rintro ⟨htable, hne, hrole, -⟩
        simp [htable, JsValue.truthy, hne, hrole] at hskip
      tauto
  · next hused =>
      simp only [Bool.not_eq_true, Bool.or_eq_false_iff, Bool.not_eq_false',
        List.contains_eq_mem, decide_eq_true_eq] at hused
      obtain ⟨htruthy, hrole⟩ := hused
      unfold MapAllows
      rw [OrderedMap.get_set]
      by_cases htable : perm.get (js "table_name") = .string table
      · have hne : table ≠ [] := by
          rw [htable] at htruthy
          simpa [JsValue.truthy] using htruthy
        rw [if_pos htable.symm, htable]
        simp only [Option.some.injEq, exists_eq_left', mem_addActions]
        constructor
        · rintro (hmem | hflag)
          · refine Or.inl ?_
            cases hget : map.get (.string table) with
            | none => simp [hget] at hmem
            | some actions => exact ⟨actions, rfl, by simpa [hget] using hmem⟩
          · exact Or.inr ⟨trivial, hne, hrole, hflag⟩
        · rintro (⟨actions, hget, hmem⟩ | ⟨-, -, -, hflag⟩)
          · exact Or.inl (by simpa [hget] using hmem)
          · exact Or.inr hflag
      · rw [if_neg fun h => htable h.symm]
        constructor
        · exact Or.inl
        · rintro (h | ⟨hname, -⟩)
          · exact h
          · exact absurd hname htable

/-- The aggregated map allows what some usable record grants. -/
theorem mapAllows_aggregatePermissions (existingRoleIds : List JsNumber)
    (records : List NocoRecord) (table : JsString) (action : CrudAction) :
    MapAllows (aggregatePermissions existingRoleIds records) table action ↔
      ∃ perm ∈ records, perm.get (js "table_name") = .string table ∧ table ≠ [] ∧
        (perm.get (js "role_id")).toNumber ∈ existingRoleIds ∧
        (perm.get action.flag).truthy = true := by
  have hfold : ∀ (records : List NocoRecord) (map : OrderedMap JsValue ActionSet),
      MapAllows (records.foldl (addPermission existingRoleIds) map) table action ↔
        MapAllows map table action ∨
          ∃ perm ∈ records, perm.get (js "table_name") = .string table ∧ table ≠ [] ∧
            (perm.get (js "role_id")).toNumber ∈ existingRoleIds ∧
            (perm.get action.flag).truthy = true := by
    intro records
    induction records with
    | nil => simp
    | cons perm records ih =>
        intro map
        rw [List.foldl_cons, ih, mapAllows_addPermission, List.exists_mem_cons_iff, or_assoc]
  rw [aggregatePermissions, hfold]
  simp [MapAllows]

end Permissions
end NocoMiddleware
