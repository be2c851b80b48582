import NocoMiddleware.Store.SchemaGrowth
import NocoMiddleware.Store.Seeding

/-!
# Complete and repeated startups

`onModuleInit` on any base: where no request fails it leaves all system tables behind with
their fields, and an admin role with its permission rows, unless the id of the role is
written with an exponent.  It adds and changes nothing else, and the next `onModuleInit`
changes nothing at all.
-/

namespace NocoMiddleware
namespace Runs

open NocoMiddleware.Js NocoMiddleware.Filter NocoMiddleware.Tables NocoMiddleware.Store
open NocoMiddleware.Permissions NocoMiddleware.Foundation

/-- The records of a table; none if there is no such table. -/
def recordsOf (base : Base) (tableId : JsString) : List Row :=
  if base.HasTable tableId then (base.world.rows tableId).rows else []

/-- The row is the admin role, or one of its permission rows on the system tables. -/
def IsStartupRow (tablePrefix : JsString) (base : Base) (role : Nat) (tableId : JsString)
    (row : Row) : Prop :=
  ∃ rolesTable permissionsTable,
    resolve tablePrefix base.world.tables SystemTable.roles.name = some rolesTable ∧
    resolve tablePrefix base.world.tables SystemTable.tablePermissions.name =
      some permissionsTable ∧
    IsSeedRow rolesTable.id permissionsTable.id role tableId row

/-- The role has a permission row with all rights on each system table. -/
def HasAllRights (tablePrefix : JsString) (base : Base) (role : Nat) : Prop :=
  ∀ table, ∃ row ∈ systemRows tablePrefix base.world .tablePermissions,
    IsPermissionOf role table row ∧ ∀ action : CrudAction, row.cell action.flag = .boolean true

/-- What `onModuleInit` makes of a base: all system tables with their fields, and an admin role
with its rights.  Tables, fields and records are only added, but for the permission rows of
the admin role. -/
structure Initialized (tablePrefix : JsString) (base base' : Base) : Prop where
  complete : ∀ table, HasFields tablePrefix base' (systemTableDefinition table)
  tables : base.world.tables <+: base'.world.tables
  fields : ∀ tableId, base.HasTable tableId → base.fields tableId <+: base'.fields tableId
  records : ∃ role ∈ systemRows tablePrefix base'.world .roles, IsAdminRole role ∧
    (role.id < 10 ^ 21 → HasAllRights tablePrefix base' role.id) ∧
    ∀ tableId, base'.HasTable tableId → ChangesOnly (IsStartupRow tablePrefix base' role.id tableId)
      (recordsOf base tableId) (recordsOf base' tableId)

/-- The bases have the same tables with the same fields and the same records. -/
structure SameBase (base base' : Base) : Prop where
  tables : base'.world.tables = base.world.tables
  fields : base'.fields = base.fields
  rows : ∀ tableId, SameRows (base.world.rows tableId).rows (base'.world.rows tableId).rows

/-- What a startup has done: it has ensured the tables, and then seeded. -/
structure Started (tablePrefix : JsString) (base base' : Base) where
  middle : Base
  rolesTable : TableMeta
  permissionsTable : TableMeta
  role : Nat
  grows : SchemaGrows tablePrefix base middle
  complete : ∀ table, HasFields tablePrefix middle (systemTableDefinition table)
  same : (∀ table, HasFields tablePrefix base (systemTableDefinition table)) →
    base.Unchanged middle
  roles : resolve tablePrefix middle.world.tables SystemTable.roles.name = some rolesTable
  permissions : resolve tablePrefix middle.world.tables SystemTable.tablePermissions.name =
    some permissionsTable
  seeded : SeededFor rolesTable.id permissionsTable.id role middle.world base'.world
  fields : base'.fields = middle.fields

section

variable {tablePrefix : JsString} {base base' : Base}

/-- A startup that has ensured one more table at first. -/
def Started.afterEnsured {table : SystemTable} {base₁ : Base}
    (h : Started tablePrefix base₁ base') (hensured : Ensured tablePrefix table base base₁) :
    Started tablePrefix base base' where
  middle := h.middle
  rolesTable := h.rolesTable
  permissionsTable := h.permissionsTable
  role := h.role
  grows := hensured.grows.trans h.grows
  complete := h.complete
  same hall :=
    have hfirst := hensured.same (hall table)
    hfirst.trans (h.same fun other => (hall other).of_unchanged hfirst)
  roles := h.roles
  permissions := h.permissions
  seeded := h.seeded
  fields := h.fields

theorem wp_initializeTablesFrom {remaining : List SystemTable}
    (hstart : Startable tablePrefix base)
    (hdone : ∀ table, table ∉ remaining →
      HasFields tablePrefix base (systemTableDefinition table)) :
    wp (nocodbBase false).contract
      (initializeTablesFrom tablePrefix (remaining.map systemTableDefinition))
      (fun result base' => result = .ok ⟨⟩ ∧ Nonempty (Started tablePrefix base base')) base := by
  induction remaining generalizing base with
  | nil =>
      have hcomplete := fun table => hdone table List.not_mem_nil
      obtain ⟨rolesTable, hroles, -⟩ := hcomplete .roles
      obtain ⟨permissionsTable, hpermissions, -⟩ := hcomplete .tablePermissions
      apply wp_lift_nocodb
      apply wp_mono (wp_seedDefaultPermissions_seeded hroles hpermissions)
      rintro result world' ⟨hresult, role, hseeded⟩
      have hrefl := Base.Unchanged.refl base
      exact ⟨hresult, ⟨base, rolesTable, permissionsTable, role, SchemaGrows.of_unchanged hrefl,
        hcomplete, fun _ => hrefl, hroles, hpermissions, hseeded, rfl⟩⟩
  | cons table remaining ih =>
      rw [List.map_cons, initializeTablesFrom, wp_bind]
      apply wp_mono (wp_ensureTableExists hstart)
      rintro result base₁ ⟨⟨tableId, rfl, hid⟩, hensured⟩
      rw [onOk_ok, filter_ne_nil hid]
      apply wp_mono (ih (hstart.grows hensured.grows) _)
      · rintro result base₂ ⟨hresult, ⟨started⟩⟩
        exact ⟨hresult, ⟨started.afterEnsured hensured⟩⟩
      · intro other hother
        by_cases heq : other = table
        · rw [heq]
          exact hensured.fields
        · apply (hdone other _).grows hensured.grows
          rw [List.mem_cons, not_or]
          exact ⟨heq, hother⟩

theorem started_of_exec {result : Except Exception PUnit} (hstart : Startable tablePrefix base)
    (hexec : Exec (nocodbBase false).contract (onModuleInit tablePrefix) base result base') :
    result = .ok ⟨⟩ ∧ Nonempty (Started tablePrefix base base') :=
  wp_sound (wp_initializeTablesFrom hstart fun table htable =>
    absurd (SystemTable.mem_all table) htable) hexec

namespace Started

theorem tables (h : Started tablePrefix base base') :
    base'.world.tables = h.middle.world.tables :=
  h.seeded.tables

theorem hasFields (h : Started tablePrefix base base') (table : SystemTable) :
    HasFields tablePrefix base' (systemTableDefinition table) := by
  obtain ⟨found, hfound, htitles⟩ := h.complete table
  refine ⟨found, ?_, ?_⟩
  · rwa [h.tables]
  · rwa [h.fields]

theorem startable (h : Started tablePrefix base base') (hstart : Startable tablePrefix base) :
    Startable tablePrefix base' := by
  have hmiddle := hstart.grows h.grows
  constructor
  · rw [h.tables]
    exact hmiddle.ids
  · rw [h.tables, h.fields]
    exact hmiddle.legacy

theorem hasTable (h : Started tablePrefix base base') {tableId : JsString} :
    base'.HasTable tableId ↔ h.middle.HasTable tableId := by
  rw [Base.HasTable, Base.HasTable, h.tables]

/-- The tables have the records of before, and those that the seeding has written. -/
theorem changesOnly (h : Started tablePrefix base base') (tableId : JsString)
    (hhas : base'.HasTable tableId) :
    ChangesOnly (IsStartupRow tablePrefix base' h.role tableId) (recordsOf base tableId)
      (recordsOf base' tableId) := by
  have hrows : recordsOf base tableId = (h.middle.world.rows tableId).rows := by
    rw [recordsOf]
    split
    · next hbase => rw [h.grows.rows tableId hbase]
    · next hbase =>
        rw [h.grows.noRows tableId (h.hasTable.mp hhas) hbase]
        rfl
  rw [hrows, recordsOf, if_pos hhas]
  apply (h.seeded.changes tableId).mono
  intro row hrow
  refine ⟨h.rolesTable, h.permissionsTable, ?_, ?_, hrow⟩
  · rw [h.tables, h.roles]
  · rw [h.tables, h.permissions]

theorem initialized (h : Started tablePrefix base base') :
    Initialized tablePrefix base base' := by
  have hroles : resolve tablePrefix base'.world.tables SystemTable.roles.name =
      some h.rolesTable := by
    rw [h.tables, h.roles]
  have hpermissions : resolve tablePrefix base'.world.tables SystemTable.tablePermissions.name =
      some h.permissionsTable := by
    rw [h.tables, h.permissions]
  obtain ⟨role, hfind, hid⟩ := Option.map_eq_some_iff.mp h.seeded.admin
  obtain ⟨hrole, hadmin⟩ := of_find hfind
  constructor
  · exact h.hasFields
  · rw [h.tables]
    exact h.grows.tables
  · rw [h.fields]
    exact h.grows.fields
  · refine ⟨role, ?_, hadmin, ?_, ?_⟩
    · rw [systemRows_eq hroles]
      exact hrole
    · intro hplain table
      rw [systemRows_eq hpermissions, hid]
      rw [hid] at hplain
      exact (h.seeded.holds hplain table).rights
    · rw [hid]
      exact h.changesOnly

/-- A second startup finds everything and changes nothing. -/
theorem again {base₂ : Base} (h : Started tablePrefix base base')
    (h' : Started tablePrefix base' base₂) : SameBase base' base₂ := by
  have hunchanged := h'.same h.hasFields
  have htables : h'.middle.world.tables = h.middle.world.tables :=
    hunchanged.world.tables.trans h.tables
  have hroles : h'.rolesTable = h.rolesTable := by
    have hresolve := h'.roles
    rw [htables, h.roles] at hresolve
    exact (Option.some.inj hresolve).symm
  have hpermissions : h'.permissionsTable = h.permissionsTable := by
    have hresolve := h'.permissions
    rw [htables, h.permissions] at hresolve
    exact (Option.some.inj hresolve).symm
  have hseeded := h'.seeded
  rw [hroles, hpermissions] at hseeded
  constructor
  · rw [h'.tables, hunchanged.world.tables]
  · rw [h'.fields, hunchanged.fields]
  · exact h.seeded.again hunchanged.world.rows hseeded

end Started

/-- Where no request fails, `onModuleInit` completes any base and changes nothing else, and the
next `onModuleInit` leaves the base as it is. -/
theorem startup_complete_idempotent {result : Except Exception PUnit}
    (hstart : Startable tablePrefix base)
    (hfirst : Exec (nocodbBase false).contract (onModuleInit tablePrefix) base result base') :
    result = .ok ⟨⟩ ∧ Initialized tablePrefix base base' ∧
      ∀ again base₂,
        Exec (nocodbBase false).contract (onModuleInit tablePrefix) base' again base₂ →
        again = .ok ⟨⟩ ∧ SameBase base' base₂ := by
  obtain ⟨hresult, ⟨started⟩⟩ := started_of_exec hstart hfirst
  refine ⟨hresult, started.initialized, fun again base₂ hsecond => ?_⟩
  obtain ⟨hagain, ⟨started'⟩⟩ := started_of_exec (started.startable hstart) hsecond
  exact ⟨hagain, started.again started'⟩

end

theorem startable_of_noLinks {tablePrefix : JsString} {base : Base}
    (hids : ∀ table ∈ base.world.tables, table.id ≠ [])
    (hlinks : ∀ table ∈ base.world.tables, ∀ field ∈ base.fields table.id,
      field.type ∉ linkFieldTypes) : Startable tablePrefix base := by
  refine ⟨hids, fun tableName table legacyFields hresolve _ field hfield => ?_⟩
  exact isLegacyField_of_noLink (hlinks table (resolve_eq_some hresolve).1 field hfield)

/-- A base with a table of its own, an admin role, and a table of permissions that lacks most
fields and holds one row. -/
def partialBase (adminId : Nat) : Base where
  world :=
    { tables :=
        [⟨js "c", js "customers", none⟩, ⟨js "r", js "roles", none⟩,
          ⟨js "p", js "table_permissions", none⟩]
      rows := fun tableId =>
        if tableId = js "c" then .ofRows [.ofCells 1 [(js "name", .string (js "Miller"))]]
        else if tableId = js "r" then
          .ofRows [.ofCells adminId [(js "role_name", .string (js "admin"))]]
        else if tableId = js "p" then
          .ofRows [.ofCells 5 [(js "role_id", .number (.ofNat adminId)),
            (js "table_name", .string (js "users"))]]
        else .empty
      cache := .empty
      clock := 0 }
  fields := fun tableId =>
    if tableId = js "r" then [⟨js "role_name", js "SingleLineText"⟩]
    else if tableId = js "p" then
      [⟨js "role_id", js "Number"⟩, ⟨js "table_name", js "SingleLineText"⟩]
    else []

/-- Choices that count the keys of new rows up and give new tables the ids `m`, `mm` and so
on. -/
def startupChoices : List StartupChoice :=
  (List.range 40).map fun step =>
    ⟨⟨false, step + 1, [], 0⟩, (List.replicate (step + 1) (js "m")).flatten, none⟩

/-- The base after the first startup. -/
def startedBase (adminId : Nat) : Base :=
  (nocodbBase false).final (onModuleInit []) startupChoices (partialBase adminId)

theorem startable_partialBase (adminId : Nat) : Startable [] (partialBase adminId) := by
  apply startable_of_noLinks
  · show ∀ table ∈ (partialBase 1).world.tables, table.id ≠ []
    decide
  · show ∀ table ∈ (partialBase 1).world.tables, ∀ field ∈ (partialBase 1).fields table.id,
      field.type ∉ linkFieldTypes
    decide

theorem startup_complete_idempotent_partial :
    Initialized [] (partialBase 3) (startedBase 3) ∧
      ∀ again base₂,
        Exec (nocodbBase false).contract (onModuleInit []) (startedBase 3) again base₂ →
        again = .ok ⟨⟩ ∧ SameBase (startedBase 3) base₂ := by
  have hexec : Exec (nocodbBase false).contract (onModuleInit []) (partialBase 3) (.ok ⟨⟩)
      (startedBase 3) := System.exec_final _ (by decide +kernel)
  exact (startup_complete_idempotent (startable_partialBase 3) hexec).2

/-- The filter on the id `1e+21` is rejected, and the rights of the admin role are not
written. -/
theorem admin_without_rights :
    Startable [] (partialBase (10 ^ 21)) ∧
      Exec (nocodbBase false).contract (onModuleInit []) (partialBase (10 ^ 21)) (.ok ⟨⟩)
        (startedBase (10 ^ 21)) ∧
      ¬ ∃ role ∈ systemRows [] (startedBase (10 ^ 21)).world .roles,
        IsAdminRole role ∧ HasAllRights [] (startedBase (10 ^ 21)) role.id := by
  refine ⟨startable_partialBase _, System.exec_final _ (by decide +kernel), ?_⟩
  have hnone : ∀ row ∈ systemRows [] (startedBase (10 ^ 21)).world .tablePermissions,
      row.cell (js "table_name") ≠ .string (js "roles") := by
    decide +kernel
  rintro ⟨role, -, -, hrights⟩
  obtain ⟨row, hrow, hpermission, -⟩ := hrights .roles
  exact hnone row hrow hpermission.2

end Runs
end NocoMiddleware
