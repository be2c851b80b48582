import NocoMiddleware.Store.DatabaseInitialization
import NocoMiddleware.Store.SameRows

/-!
# What the seeding establishes

Where no request fails, the seeding leaves an admin role behind and, for each system table,
a permission row of the role that says all that the seeding writes.  It changes no other
rows, and where all of this is there already it changes nothing.
-/

namespace NocoMiddleware
namespace Store

open NocoMiddleware.Js NocoMiddleware.Filter NocoMiddleware.Tables NocoMiddleware.Permissions
open NocoMiddleware.Foundation

/-! ## Rows that a caller may write -/

/-- All rows that are new or changed are of one kind, and none is gone. -/
structure ChangesOnly (kind : Row → Prop) (rows rows' : List Row) : Prop where
  new : ∀ row ∈ rows', row ∈ rows ∨ kind row
  kept : ∀ row ∈ rows, row ∈ rows' ∨ (kind row ∧ ∃ row' ∈ rows', row'.id = row.id)

namespace ChangesOnly

variable {kind : Row → Prop}

theorem refl (rows : List Row) : ChangesOnly kind rows rows :=
  ⟨fun _ h => Or.inl h, fun _ h => Or.inl h⟩

theorem trans {first second third : List Row} (h : ChangesOnly kind first second)
    (h' : ChangesOnly kind second third) : ChangesOnly kind first third := by
  constructor
  · intro row hrow
    rcases h'.new row hrow with hmiddle | hkind
    · exact h.new row hmiddle
    · exact Or.inr hkind
  · intro row hrow
    rcases h.kept row hrow with hmiddle | ⟨hkind, row', hrow', hid⟩
    · exact h'.kept row hmiddle
    · right
      refine ⟨hkind, ?_⟩
      rcases h'.kept row' hrow' with hlast | ⟨-, row'', hrow'', hid'⟩
      · exact ⟨row', hlast, hid⟩
      · exact ⟨row'', hrow'', hid'.trans hid⟩

theorem mono {weaker : Row → Prop} {rows rows' : List Row} (h : ChangesOnly kind rows rows')
    (hweaker : ∀ row, kind row → weaker row) : ChangesOnly weaker rows rows' := by
  constructor
  · intro row hrow
    exact (h.new row hrow).imp_right (hweaker row)
  · intro row hrow
    exact (h.kept row hrow).imp_right fun hkept => ⟨hweaker row hkept.1, hkept.2⟩

theorem insert {table : Table} {row : Row} (hfresh : row.id ∉ table.rows.map Row.id)
    (hkind : kind row) : ChangesOnly kind table.rows (table.insert row hfresh).rows := by
  rw [Table.rows_insert]
  constructor
  · intro other hother
    rw [List.mem_append, List.mem_singleton] at hother
    rcases hother with hold | rfl
    · exact Or.inl hold
    · exact Or.inr hkind
  · exact fun other hother => Or.inl (List.mem_append_left _ hother)

theorem update {table : Table} {row : Row} {payload : Payload} (hrow : row ∈ table.rows)
    (hkind : kind row) (hpatched : kind (row.patch payload)) :
    ChangesOnly kind table.rows (table.update (.ofNat row.id) payload).rows := by
  constructor
  · intro other hother
    rcases Table.replaced_of_mem_update hrow hother with ⟨hold, -⟩ | rfl
    · exact Or.inl hold
    · exact Or.inr hpatched
  · intro other hother
    by_cases hid : JsNumber.ofNat row.id = .ofNat other.id
    · right
      obtain rfl : other = row :=
        Table.eq_of_id_eq hother hrow (JsNumber.ofNat_inj.mp hid).symm
      exact ⟨hkind, other.patch payload, List.mem_map.mpr ⟨other, hother, if_pos rfl⟩, rfl⟩
    · exact Or.inl (List.mem_map.mpr ⟨other, hother, if_neg hid⟩)

end ChangesOnly

/-! ## The permission row of one system table -/

/-- What the seeding writes for a system table. -/
def adminPermissionData (role : Nat) (table : SystemTable) : Payload :=
  permissionData (adminPermissions (.ofNat role) table)

/-- The row is a permission row of the role on the system table. -/
def IsPermissionOf (role : Nat) (table : SystemTable) (row : Row) : Prop :=
  row.cell (js "role_id") = .number (.ofNat role) ∧
    row.cell (js "table_name") = .string table.name

instance (role : Nat) (table : SystemTable) (row : Row) :
    Decidable (IsPermissionOf role table row) :=
  inferInstanceAs (Decidable (_ ∧ _))

/-- The first permission row of the role on the system table says all that the seeding
writes. -/
def HoldsPermission (role : Nat) (table : SystemTable) (rows : List Row) : Prop :=
  ∃ row, rows.find? (fun row => IsPermissionOf role table row) = some row ∧
    SameRow row (row.patch (adminPermissionData role table))

/-- The first permission row of the role on the system table is overwritten, or a row is
inserted where there was none. -/
inductive PermissionWritten (role : Nat) (table : SystemTable) (before : Table) :
    Table → Prop where
  | updated {row : Row}
      (hfind : before.rows.find? (fun row => IsPermissionOf role table row) = some row) :
      PermissionWritten role table before
        (before.update (.ofNat row.id) (adminPermissionData role table))
  | created {row : Row} (hfresh : row.id ∉ before.rows.map Row.id)
      (hfind : before.rows.find? (fun row => IsPermissionOf role table row) = none)
      (hcells : row.cells = toCells (adminPermissionData role table)) :
      PermissionWritten role table before (before.insert row hfresh)

theorem nodup_adminPermissionData (role : Nat) (table : SystemTable) :
    ((adminPermissionData role table).map Prod.fst).Nodup := by
  show ([js "role_id", js "table_name", js "can_create", js "can_read", js "can_update",
    js "can_delete"] : List JsString).Nodup
  decide

/-- A row that was written, over any other fields. -/
theorem isPermissionOf_of_written {role : Nat} {table : SystemTable} {row : Row}
    {rest : List (JsString × JsonScalar)}
    (hcells : row.cells = toCells (adminPermissionData role table) ++ rest) :
    IsPermissionOf role table row ∧
      ∀ action : CrudAction, row.cell action.flag = .boolean true := by
  refine ⟨⟨?_, ?_⟩, fun action => ?_⟩
  · exact (Row.cell_of_cells hcells (by decide)).trans rfl
  · exact (Row.cell_of_cells hcells (by decide)).trans rfl
  · exact (cell_flag_of_written ⟨_, rfl⟩ hcells action).trans (by cases action <;> rfl)

theorem isPermissionOf_patch (role : Nat) (table : SystemTable) (row : Row) :
    IsPermissionOf role table (row.patch (adminPermissionData role table)) :=
  (isPermissionOf_of_written rfl).1

theorem isPermissionOf_of_cells {role : Nat} {table : SystemTable} {row : Row}
    (hcells : row.cells = toCells (adminPermissionData role table)) :
    IsPermissionOf role table row :=
  (isPermissionOf_of_written (hcells.trans (List.append_nil _).symm)).1

theorem role_name_of_adminPermissionData (role : Nat) (table : SystemTable) (row : Row) :
    (row.patch (adminPermissionData role table)).cell (js "role_name") =
      row.cell (js "role_name") := by
  apply Row.cell_patch_of_notMem
  show js "role_name" ∉ ([js "role_id", js "table_name", js "can_create", js "can_read",
    js "can_update", js "can_delete"] : List JsString)
  decide

/-- A row is a permission row of the role on at most one system table. -/
theorem isPermissionOf_inj {role : Nat} {table other : SystemTable} {row : Row}
    (h : IsPermissionOf role table row) (hother : IsPermissionOf role other row) :
    other = table := by
  have hname := h.2.symm.trans hother.2
  exact (SystemTable.name_injective (JsValue.string.inj hname)).symm

section

variable {role : Nat} {table : SystemTable} {before after : Table}

/-- Writing the permission row of one system table keeps what the lookup for any of them
finds, up to the written row. -/
theorem find_isPermissionOf_updated {row : Row} (other : SystemTable) (hrow : row ∈ before.rows)
    (h : IsPermissionOf role table row) :
    (before.update (.ofNat row.id) (adminPermissionData role table)).rows.find?
        (fun row => IsPermissionOf role other row) =
      (before.rows.find? fun row => IsPermissionOf role other row).map fun found =>
        if found = row then row.patch (adminPermissionData role table) else found := by
  apply find_update hrow
  have hpatched := isPermissionOf_patch role table row
  constructor
  · intro hother
    rw [isPermissionOf_inj hpatched hother]
    exact h
  · intro hother
    rw [isPermissionOf_inj h hother]
    exact hpatched

theorem PermissionWritten.holds (h : PermissionWritten role table before after) :
    HoldsPermission role table after.rows := by
  cases h with
  | updated hfind =>
      rename_i row
      obtain ⟨hrow, hpermission⟩ := of_find hfind
      refine ⟨row.patch (adminPermissionData role table), ?_,
        sameRow_patch_patch row (nodup_adminPermissionData role table)⟩
      rw [find_isPermissionOf_updated table hrow hpermission, hfind, Option.map_some, if_pos rfl]
  | created hfresh hfind hcells =>
      rename_i row
      refine ⟨row, ?_, sameRow_patch_of_cells hcells (nodup_adminPermissionData role table)⟩
      exact find_concat_of_none hfind (isPermissionOf_of_cells hcells)

theorem PermissionWritten.keeps {other : SystemTable}
    (h : PermissionWritten role table before after)
    (hholds : HoldsPermission role other before.rows) :
    HoldsPermission role other after.rows := by
  obtain ⟨found, hfound, hsame⟩ := hholds
  cases h with
  | updated hfind =>
      rename_i row
      obtain ⟨hrow, hpermission⟩ := of_find hfind
      have hother := (of_find hfound).2
      refine ⟨if found = row then row.patch (adminPermissionData role table) else found, ?_, ?_⟩
      · rw [find_isPermissionOf_updated other hrow hpermission, hfound, Option.map_some]
      · by_cases heq : found = row
        · rw [if_pos heq]
          rw [heq] at hother
          rw [isPermissionOf_inj hpermission hother]
          exact sameRow_patch_patch row (nodup_adminPermissionData role table)
        · rw [if_neg heq]
          exact hsame
  | created hfresh hfind hcells =>
      exact ⟨found, find_concat_of_some hfound, hsame⟩

/-- Where the permission row says it all, writing it changes nothing. -/
theorem PermissionWritten.sameRows (h : PermissionWritten role table before after)
    (hholds : HoldsPermission role table before.rows) : SameRows before.rows after.rows := by
  obtain ⟨found, hfound, hsame⟩ := hholds
  cases h with
  | updated hfind =>
      obtain rfl := Option.some.inj (hfound.symm.trans hfind)
      exact sameRows_update (of_find hfind).1 hsame
  | created hfresh hfind hcells =>
      rw [hfound] at hfind
      contradiction

theorem PermissionWritten.changesOnly (h : PermissionWritten role table before after) :
    ChangesOnly (fun row => ∃ table, IsPermissionOf role table row) before.rows after.rows := by
  cases h with
  | updated hfind =>
      obtain ⟨hrow, hpermission⟩ := of_find hfind
      exact .update hrow ⟨table, hpermission⟩ ⟨table, isPermissionOf_patch role table _⟩
  | created hfresh hfind hcells =>
      exact .insert hfresh ⟨table, isPermissionOf_of_cells hcells⟩

end

theorem HoldsPermission.rights {role : Nat} {table : SystemTable} {rows : List Row}
    (h : HoldsPermission role table rows) :
    ∃ row ∈ rows, IsPermissionOf role table row ∧
      ∀ action : CrudAction, row.cell action.flag = .boolean true := by
  obtain ⟨row, hfind, hsame⟩ := h
  obtain ⟨hrow, hpermission⟩ := of_find hfind
  refine ⟨row, hrow, hpermission, fun action => ?_⟩
  rw [← hsame.cell]
  exact (isPermissionOf_of_written rfl).2 action

/-! ## The admin role -/

/-- The role is named `admin`. -/
def IsAdminRole (row : Row) : Prop :=
  row.cell (js "role_name") = .string (js "admin")

instance (row : Row) : Decidable (IsAdminRole row) :=
  inferInstanceAs (Decidable (_ = _))

/-- The key of the first role named `admin`. -/
def adminRoleId (rows : List Row) : Option Nat :=
  (rows.find? fun row => IsAdminRole row).map Row.id

theorem isAdminRole_of_cells {row : Row} (hcells : row.cells = toCells adminRoleData) :
    IsAdminRole row :=
  (Row.cell_of_cells hcells (by decide)).trans rfl

theorem adminRoleId_insert {table : Table} {row : Row}
    (hfresh : row.id ∉ table.rows.map Row.id) (hrow : ¬ IsAdminRole row) :
    adminRoleId (table.insert row hfresh).rows = adminRoleId table.rows := by
  rw [adminRoleId, Table.rows_insert, find_concat_of_not hrow, adminRoleId]

/-- Permission rows are not looked up as roles. -/
theorem PermissionWritten.adminRoleId {role : Nat} {table : SystemTable} {before after : Table}
    (h : PermissionWritten role table before after) :
    adminRoleId after.rows = Store.adminRoleId before.rows := by
  cases h with
  | updated hfind =>
      rename_i row
      have hkeeps : IsAdminRole (row.patch (adminPermissionData role table)) ↔
          IsAdminRole row := by
        rw [IsAdminRole, IsAdminRole, role_name_of_adminPermissionData]
      rw [Store.adminRoleId, find_update (of_find hfind).1 hkeeps, Option.map_map,
        Store.adminRoleId]
      congr 1
      funext other
      show Row.id (if other = row then _ else other) = other.id
      split
      · next heq => rw [heq, Row.id_patch]
      · rfl
  | created hfresh hfind hcells =>
      apply adminRoleId_insert
      rw [IsAdminRole, Row.cell_of_cells hcells (by decide)]
      exact fun h => by contradiction

/-! ## The writes of the seeding -/

section

variable {rolesTableId permissionsTableId : JsString} {role : Nat} {table : SystemTable}

/-- After some time, the permission row of one system table is written. -/
def WritesPermission (permissionsTableId : JsString) (role : Nat) (table : SystemTable)
    (world world' : World) : Prop :=
  ∃ after, PermissionWritten role table (world.rows permissionsTableId) after ∧
    world'.tables = world.tables ∧
    world'.rows = Function.update world.rows permissionsTableId after

/-- The row is the admin role, or one of its permission rows on the system tables. -/
def IsSeedRow (rolesTableId permissionsTableId : JsString) (role : Nat) (tableId : JsString)
    (row : Row) : Prop :=
  (tableId = rolesTableId ∧ IsAdminRole row ∧ row.id = role) ∨
    (tableId = permissionsTableId ∧ ∃ table, IsPermissionOf role table row)

/-- What the seeding may do for an admin role. -/
structure Seeds (rolesTableId permissionsTableId : JsString) (role : Nat)
    (world world' : World) : Prop where
  tables : world'.tables = world.tables
  admin : adminRoleId (world'.rows rolesTableId).rows = some role
  first : ∀ other, adminRoleId (world.rows rolesTableId).rows = some other → other = role
  changes : ∀ tableId, ChangesOnly (IsSeedRow rolesTableId permissionsTableId role tableId)
    (world.rows tableId).rows (world'.rows tableId).rows
  keeps : ∀ table, HoldsPermission role table (world.rows permissionsTableId).rows →
    HoldsPermission role table (world'.rows permissionsTableId).rows
  same : adminRoleId (world.rows rolesTableId).rows = some role →
    (∀ table, HoldsPermission role table (world.rows permissionsTableId).rows) →
    ∀ tableId, SameRows (world.rows tableId).rows (world'.rows tableId).rows

variable {world world' : World}

theorem Seeds.trans {middle : World}
    (h : Seeds rolesTableId permissionsTableId role world middle)
    (h' : Seeds rolesTableId permissionsTableId role middle world') :
    Seeds rolesTableId permissionsTableId role world world' where
  tables := h'.tables.trans h.tables
  admin := h'.admin
  first := h.first
  changes tableId := (h.changes tableId).trans (h'.changes tableId)
  keeps table hholds := h'.keeps table (h.keeps table hholds)
  same hadmin hholds tableId :=
    (h.same hadmin hholds tableId).trans
      (h'.same h.admin (fun table => h.keeps table (hholds table)) tableId)

theorem seeds_of_unchanged (hadmin : adminRoleId (world.rows rolesTableId).rows = some role)
    (h : Unchanged world world') :
    Seeds rolesTableId permissionsTableId role world world' := by
  constructor
  · exact h.tables
  · rwa [h.rows]
  · intro other hother
    exact Option.some.inj (hother.symm.trans hadmin)
  · intro tableId
    rw [h.rows]
    exact ChangesOnly.refl _
  · intro table hholds
    rwa [h.rows]
  · intro _ _ tableId
    rw [h.rows]
    exact SameRows.refl _

/-- The admin role is inserted where there was none. -/
theorem seeds_of_inserted {row : Row} (hfresh : row.id ∉ (world.rows rolesTableId).rows.map Row.id)
    (hnone : adminRoleId (world.rows rolesTableId).rows = none)
    (hcells : row.cells = toCells adminRoleData) (htables : world'.tables = world.tables)
    (hrows : world'.rows =
      Function.update world.rows rolesTableId ((world.rows rolesTableId).insert row hfresh)) :
    Seeds rolesTableId permissionsTableId row.id world world' := by
  have hadmin := isAdminRole_of_cells hcells
  constructor
  · exact htables
  · have hfind : (world.rows rolesTableId).rows.find? (fun row => IsAdminRole row) = none :=
      Option.map_eq_none_iff.mp hnone
    rw [hrows, Function.update_self, adminRoleId, Table.rows_insert,
      find_concat_of_none hfind hadmin, Option.map_some]
  · intro other hother
    rw [hnone] at hother
    contradiction
  · intro tableId
    rw [hrows]
    by_cases hid : tableId = rolesTableId
    · rw [hid, Function.update_self]
      exact .insert hfresh (Or.inl ⟨rfl, hadmin, rfl⟩)
    · rw [Function.update_of_ne hid]
      exact .refl _
  · rintro table ⟨found, hfound, hsame⟩
    rw [hrows]
    by_cases hid : permissionsTableId = rolesTableId
    · rw [hid] at hfound
      rw [hid, Function.update_self]
      exact ⟨found, find_concat_of_some hfound, hsame⟩
    · rw [Function.update_of_ne hid]
      exact ⟨found, hfound, hsame⟩
  · intro hsome
    rw [hnone] at hsome
    contradiction

theorem seeds_of_writesPermission
    (hadmin : adminRoleId (world.rows rolesTableId).rows = some role)
    (h : WritesPermission permissionsTableId role table world world') :
    Seeds rolesTableId permissionsTableId role world world' := by
  obtain ⟨after, hwritten, htables, hrows⟩ := h
  constructor
  · exact htables
  · rw [hrows]
    by_cases hid : rolesTableId = permissionsTableId
    · rw [hid] at hadmin
      rw [hid, Function.update_self, hwritten.adminRoleId, hadmin]
    · rw [Function.update_of_ne hid, hadmin]
  · intro other hother
    exact Option.some.inj (hother.symm.trans hadmin)
  · intro tableId
    rw [hrows]
    by_cases hid : tableId = permissionsTableId
    · rw [hid, Function.update_self]
      exact hwritten.changesOnly.mono fun row hrow => Or.inr ⟨rfl, hrow⟩
    · rw [Function.update_of_ne hid]
      exact .refl _
  · intro other hholds
    rw [hrows, Function.update_self]
    exact hwritten.keeps hholds
  · intro _ hholds tableId
    rw [hrows]
    by_cases hid : tableId = permissionsTableId
    · rw [hid, Function.update_self]
      exact hwritten.sameRows (hholds table)
    · rw [Function.update_of_ne hid]
      exact .refl _

theorem WritesPermission.holds (h : WritesPermission permissionsTableId role table world world') :
    HoldsPermission role table (world'.rows permissionsTableId).rows := by
  obtain ⟨after, hwritten, -, hrows⟩ := h
  rw [hrows, Function.update_self]
  exact hwritten.holds

end

/-! ## Runs in which no request fails -/

theorem filterBoth_permission_iff (role : Nat) (table : SystemTable) :
    (∃ filter, filterBoth (js "role_id") (.number (.ofNat role)) (js "table_name")
        (.string table.name) = .ok filter) ↔ role < 10 ^ 21 := by
  have hleft : filterEqValue (js "role_id") (.number (.ofNat role)) =
      (FilterCall.filterEq (js "role_id") (.number (.ofNat role))).run := rfl
  have hright : filterEqValue (js "table_name") (.string table.name) =
      (FilterCall.filterEq (js "table_name") (.string table.name)).run := rfl
  have hname : (∃ text, (FilterCall.filterEq (js "table_name") (.string table.name)).run =
        .ok text) ∧
      (FilterCall.filterEq (js "table_name") (.string table.name)).Plain := by
    constructor
    · cases table <;> exact ⟨_, rfl⟩
    · intro value hvalue
      rw [List.mem_singleton.mp hvalue]
      trivial
  rw [filterBoth_isOk_iff hleft hright, run_filterEq_id (by decide), and_iff_left hname]

section

variable {tablePrefix rolesTableId permissionsTableId : JsString} {role : Nat}
  {table : SystemTable} {world : World}

theorem satisfies_isPermissionOf :
    (fun row => satisfies row (eqCondition (js "role_id") (.number (.ofNat role))) &&
        satisfies row (eqCondition (js "table_name") (.string table.name))) =
      fun row => decide (IsPermissionOf role table row) := by
  funext row
  have htrim : trim table.name = table.name := by cases table <;> decide
  rw [Bool.eq_iff_iff, Bool.and_eq_true, satisfies_eqCondition_number (by decide),
    satisfies_eqCondition_string (by decide) row htrim, decide_eq_true_iff, IsPermissionOf]

theorem satisfies_isAdminRole :
    (fun row => satisfies row (eqCondition (js "role_name") (.string (js "admin")))) =
      fun row => decide (IsAdminRole row) := by
  funext row
  rw [Bool.eq_iff_iff, satisfies_eqCondition_string (by decide) row (by decide),
    decide_eq_true_iff, IsAdminRole]

/-- One round of the loop, for a role whose id is written without an exponent. -/
theorem wp_ensureAdminPermission_plain (hplain : role < 10 ^ 21) :
    wp (nocodb false).contract (ensureAdminPermission permissionsTableId (.ofNat role) table)
      (byOutcome (WritesPermission permissionsTableId role table world) fun _ => False) world := by
  obtain ⟨filter, hfilter⟩ := (filterBoth_permission_iff role table).mpr hplain
  rw [ensureAdminPermission, wp_bind, wp_ofExcept, hfilter, onOk_ok, wp_bind]
  apply wp_findOne_find (selectRows_filterBoth hfilter)
  · intro hfaults
    contradiction
  intro w₁ h₁
  rw [satisfies_isPermissionOf, onOk_ok]
  cases hfind : (world.rows permissionsTableId).rows.find? fun row =>
      IsPermissionOf role table row with
  | none =>
      simp only [Option.map_none, Option.filter_none, wp_bind]
      apply wp_create
      · intro hfaults
        contradiction
      intro w₂ row hfresh hcells h₂
      rw [h₁.rows] at hfresh
      refine ⟨_, .created hfresh hfind hcells, ?_, ?_⟩
      · rw [World.tables_setTable, h₂.tables, h₁.tables]
      · show Function.update w₂.rows _ _ = _
        simp only [h₂.rows, h₁.rows]
  | some row =>
      rw [Option.map_some, Option.filter_some, if_pos (truthy_id_flattenRecord none row)]
      simp only [extractNumericId_flattenRecord, wp_bind, wp_ofExcept, onOk_ok]
      have hmem := (of_find hfind).1
      rw [← h₁.rows] at hmem
      apply wp_update hmem
      · intro hfaults
        contradiction
      intro w₂ h₂
      refine ⟨_, .updated hfind, ?_, ?_⟩
      · rw [World.tables_setTable, h₂.tables, h₁.tables]
      · show Function.update w₂.rows _ _ = _
        rw [h₂.rows, h₁.rows]
        rfl

/-- The filter on an id that is written with an exponent is rejected. -/
theorem wp_ensureAdminPermission_rejected (hnot : ¬ role < 10 ^ 21) :
    wp (nocodb false).contract (ensureAdminPermission permissionsTableId (.ofNat role) table)
      (byOutcome (fun _ => False) (Unchanged world)) world := by
  rw [ensureAdminPermission, wp_bind, wp_ofExcept]
  cases hfilter : filterBoth (js "role_id") (.number (.ofNat role)) (js "table_name")
      (.string table.name) with
  | ok filter => exact absurd ((filterBoth_permission_iff role table).mp ⟨filter, hfilter⟩) hnot
  | error exception => exact Unchanged.refl world

/-- What the seeding has established for an admin role.  If the id of the role is written with
an exponent then the seeding stops at the first permission row. -/
structure SeededFor (rolesTableId permissionsTableId : JsString) (role : Nat)
    (world world' : World) : Prop extends
    Seeds rolesTableId permissionsTableId role world world' where
  holds : role < 10 ^ 21 →
    ∀ table, HoldsPermission role table (world'.rows permissionsTableId).rows
  rejected : ¬ role < 10 ^ 21 → adminRoleId (world.rows rolesTableId).rows = some role →
    ∀ tableId, SameRows (world.rows tableId).rows (world'.rows tableId).rows

/-- Seeding again changes nothing. -/
theorem SeededFor.again {middle later world' : World} {other : Nat}
    (h : SeededFor rolesTableId permissionsTableId role world middle)
    (hrows : later.rows = middle.rows)
    (h' : SeededFor rolesTableId permissionsTableId other later world') :
    ∀ tableId, SameRows (middle.rows tableId).rows (world'.rows tableId).rows := by
  have hadmin := h.admin
  rw [← hrows] at hadmin
  obtain rfl := h'.first role hadmin
  rw [← hrows]
  by_cases hplain : role < 10 ^ 21
  · apply h'.same hadmin
    rw [hrows]
    exact h.holds hplain
  · exact h'.rejected hplain hadmin

theorem wp_ensureAdminPermissions {middle : World}
    (hseeds : Seeds rolesTableId permissionsTableId role world middle)
    (hsame : adminRoleId (world.rows rolesTableId).rows = some role →
      ∀ tableId, SameRows (world.rows tableId).rows (middle.rows tableId).rows) :
    wp (nocodb false).contract (ensureAdminPermissions permissionsTableId (.ofNat role))
      (fun _ => SeededFor rolesTableId permissionsTableId role world) middle := by
  rw [ensureAdminPermissions]
  by_cases hplain : role < 10 ^ 21
  · apply wp_forM fun remaining world' => Seeds rolesTableId permissionsTableId role world world' ∧
      ∀ table, table ∉ remaining →
        HoldsPermission role table (world'.rows permissionsTableId).rows
    · rintro table remaining w₁ ⟨h₁, hholds⟩
      apply wp_mono (wp_ensureAdminPermission_plain hplain)
      rintro (exception | _) w₂ hwrites
      · contradiction
      · have h₂ := seeds_of_writesPermission h₁.admin hwrites
        refine ⟨h₁.trans h₂, fun other hother => ?_⟩
        by_cases heq : other = table
        · rw [heq]
          exact hwrites.holds
        · apply h₂.keeps other (hholds other _)
          rw [List.mem_cons, not_or]
          exact ⟨heq, hother⟩
    · rintro w₁ ⟨h₁, hholds⟩
      exact ⟨h₁, fun _ table => hholds table List.not_mem_nil, fun hnot => absurd hplain hnot⟩
    · refine ⟨hseeds, fun table htable => ?_⟩
      exact absurd (SystemTable.mem_all table) htable
  · -- the first round throws
    rw [SystemTable.all, List.forM_cons, wp_bind]
    apply wp_mono (wp_ensureAdminPermission_rejected hplain)
    rintro (exception | _) w₁ h₁
    · refine ⟨hseeds.trans (seeds_of_unchanged hseeds.admin h₁), fun h => absurd h hplain, ?_⟩
      rw [h₁.rows]
      exact fun _ => hsame
    · contradiction

/-- The admin role is looked up, or inserted where there is none, and then it gets its
permission rows. -/
theorem wp_seedPermissions_seeded {rolesTable permissionsTable : TableMeta}
    (hroles : resolve tablePrefix world.tables SystemTable.roles.name = some rolesTable)
    (hpermissions : resolve tablePrefix world.tables SystemTable.tablePermissions.name =
      some permissionsTable) :
    wp (nocodb false).contract (seedPermissions tablePrefix)
      (fun _ world' => ∃ role, SeededFor rolesTable.id permissionsTable.id role world world')
      world := by
  obtain ⟨filter, hfilter⟩ : ∃ filter,
      filterEqValue (js "role_name") (.string (js "admin")) = .ok filter := ⟨_, rfl⟩
  rw [seedPermissions, wp_bind]
  apply wp_getTableByName
  · intro hfaults
    contradiction
  intro w₁ h₁
  rw [onOk_ok, wp_bind]
  apply wp_getTableByName
  · intro hfaults
    contradiction
  intro w₂ h₂
  have h₂ := h₁.trans h₂
  rw [onOk_ok, h₁.tables, hroles, hpermissions]
  simp only [wp_bind, wp_ofExcept, hfilter, onOk_ok]
  apply wp_list_find (selectRows_filterEqValue hfilter)
  · intro hfaults
    contradiction
  intro w₃ h₃
  have h₃ := h₂.trans h₃
  rw [onOk_ok, satisfies_isAdminRole, h₂.rows]
  cases hfind : (world.rows rolesTable.id).rows.find? fun row => IsAdminRole row with
  | none =>
      simp only [Option.toList_none, List.map_nil, List.head?_nil, wp_bind]
      apply wp_create
      · intro hfaults
        contradiction
      intro w₄ row hfresh hcells h₄
      have h₄ := h₃.trans h₄
      rw [onOk_ok, wp_bind, wp_ofExcept, extractNumericId_flattenRecord, onOk_ok]
      have hnone : adminRoleId (world.rows rolesTable.id).rows = none := by
        rw [adminRoleId, hfind, Option.map_none]
      have hseeds : Seeds rolesTable.id permissionsTable.id row.id world
          (w₄.setTable rolesTable.id ((w₃.rows rolesTable.id).insert row hfresh)) := by
        simp only [h₃.rows] at hfresh ⊢
        apply seeds_of_inserted hfresh hnone hcells
        · rw [World.tables_setTable, h₄.tables]
        · show Function.update w₄.rows _ _ = _
          simp only [h₄.rows]
      apply wp_mono (wp_ensureAdminPermissions hseeds ?_)
      · intro result world' hseeded
        exact ⟨row.id, hseeded⟩
      · intro hsome
        rw [hnone] at hsome
        contradiction
  | some role =>
      simp only [Option.toList_some, List.map_cons, List.map_nil, List.head?_cons]
      have hrole : adminRoleId (world.rows rolesTable.id).rows = some role.id := by
        rw [adminRoleId, hfind, Option.map_some]
      apply wp_mono (wp_ensureAdminPermissions (seeds_of_unchanged hrole h₃) ?_)
      · intro result world' hseeded
        exact ⟨role.id, hseeded⟩
      · intro _ tableId
        rw [h₃.rows]
        exact .refl _

/-- Where no request fails, the seeding has an admin role at its end and, if the id of the
role is written without an exponent, all of its permission rows. -/
theorem wp_seedDefaultPermissions_seeded {rolesTable permissionsTable : TableMeta}
    (hroles : resolve tablePrefix world.tables SystemTable.roles.name = some rolesTable)
    (hpermissions : resolve tablePrefix world.tables SystemTable.tablePermissions.name =
      some permissionsTable) :
    wp (nocodb false).contract (seedDefaultPermissions tablePrefix)
      (fun result world' => result = .ok ⟨⟩ ∧
        ∃ role, SeededFor rolesTable.id permissionsTable.id role world world') world := by
  rw [seedDefaultPermissions, wp_tryCatch]
  apply wp_mono (wp_seedPermissions_seeded hroles hpermissions)
  rintro (exception | _) world' hseeded
  · exact ⟨rfl, hseeded⟩
  · exact ⟨rfl, hseeded⟩

end

end Store
end NocoMiddleware
