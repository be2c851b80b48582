import NocoMiddleware.Foundation.Lookup
import NocoMiddleware.Tables.TableName

/-!
# Resolving logical table names

`getTableByName` of `nocodb.service.ts` on the list of tables that NocoDB
reports: the prefixed name is matched against titles first and against physical
table names as a fallback.
-/

namespace NocoMiddleware
namespace Tables

open Js Foundation

/-- `SYSTEM_TABLE_NAMES`. -/
inductive SystemTable where
  | users
  | roles
  | userRoles
  | tablePermissions
  deriving DecidableEq

namespace SystemTable

/-- The logical name of a system table. -/
def name : SystemTable → JsString
  | users => js "users"
  | roles => js "roles"
  | userRoles => js "user_roles"
  | tablePermissions => js "table_permissions"

/-- `Object.values(SYSTEM_TABLE_NAMES)`. -/
def all : List SystemTable :=
  [users, roles, userRoles, tablePermissions]

theorem mem_all (table : SystemTable) : table ∈ all := by
  cases table <;> simp [all]

theorem name_injective : Function.Injective name := by
  intro first second h
  cases first <;> cases second <;> first | rfl | (revert h; decide)

/-- The names of the system tables are valid table names. -/
theorem isValidTableName_name (unicode : UnicodeClasses) (table : SystemTable) :
    isValidTableName unicode table.name = true := by
  refine isValidTableName_of_ascii ?_ ?_
  · cases table <;> decide
  · cases table <;> decide

end SystemTable

/-- `NocoTableMeta`, without its fields. -/
structure TableMeta where
  id : JsString
  title : JsString
  table_name : Option JsString
  deriving DecidableEq

section

variable (tablePrefix : JsString)

/-- `getPrefixedTableName`. -/
def getPrefixedTableName (tableName : JsString) : JsString :=
  tablePrefix ++ tableName

/-- The table that `getTableByName` finds in the reported list. -/
def resolve (tables : List TableMeta) (tableName : JsString) : Option TableMeta :=
  let prefixedName := getPrefixedTableName tablePrefix tableName
  (tables.find? fun t => t.title = prefixedName).or
    (tables.find? fun t => t.table_name = some prefixedName)

/-- The system tables as NocoDB reports them after startup, with their names for
ids. -/
def systemTables : List TableMeta :=
  SystemTable.all.map fun table =>
    ⟨table.name, getPrefixedTableName tablePrefix table.name, none⟩

theorem getPrefixedTableName_inj {first second : JsString} :
    getPrefixedTableName tablePrefix first = getPrefixedTableName tablePrefix second ↔
      first = second := by
  simp [getPrefixedTableName]

/-- A table answers to a logical name by its physical table name: no table has
the name as title, and this one is the first with the physical name. -/
def ResolvesByTableName (tables : List TableMeta) (tableName : JsString)
    (table : TableMeta) : Prop :=
  (∀ other ∈ tables, other.title ≠ getPrefixedTableName tablePrefix tableName) ∧
    tables.find? (fun t => t.table_name = some (getPrefixedTableName tablePrefix tableName)) =
      some table

variable {tablePrefix}

/-- The resolved table is titled with the prefixed name or, when there is no such
table, is the first one with that physical name. -/
theorem resolve_eq_some {tables : List TableMeta} {tableName : JsString} {table : TableMeta}
    (h : resolve tablePrefix tables tableName = some table) :
    table ∈ tables ∧
      (table.title = getPrefixedTableName tablePrefix tableName ∨
        ResolvesByTableName tablePrefix tables tableName table) := by
  rcases Option.or_eq_some_iff.mp h with htitle | ⟨hnone, hname⟩
  · obtain ⟨hmem, htitle⟩ := of_find htitle
    exact ⟨hmem, Or.inl htitle⟩
  · exact ⟨(of_find hname).1, Or.inr ⟨find_eq_none.mp hnone, hname⟩⟩

/-- With pairwise distinct titles the table titled with the prefixed name is the
resolved one. -/
theorem resolve_of_title {tables : List TableMeta} {tableName : JsString} {table : TableMeta}
    (htitles : (tables.map TableMeta.title).Nodup) (hmem : table ∈ tables)
    (htitle : table.title = getPrefixedTableName tablePrefix tableName) :
    resolve tablePrefix tables tableName = some table := by
  have hfind : tables.find? (fun t => t.title = getPrefixedTableName tablePrefix tableName) =
      some table := by
    rw [← htitle]
    exact find_of_key htitles hmem
  simp [resolve, hfind]

theorem mem_systemTables_iff {table : TableMeta} :
    table ∈ systemTables tablePrefix ↔ ∃ system : SystemTable,
      table = ⟨system.name, getPrefixedTableName tablePrefix system.name, none⟩ := by
  rw [systemTables, List.mem_map]
  constructor
  · rintro ⟨system, -, rfl⟩
    exact ⟨system, rfl⟩
  · rintro ⟨system, rfl⟩
    exact ⟨system, SystemTable.mem_all system, rfl⟩

/-- After startup each system table name resolves to its own table. -/
theorem resolve_systemTables (system : SystemTable) :
    resolve tablePrefix (systemTables tablePrefix) system.name =
      some ⟨system.name, getPrefixedTableName tablePrefix system.name, none⟩ := by
  refine resolve_of_title ?_ (mem_systemTables_iff.mpr ⟨system, rfl⟩) rfl
  rw [systemTables, List.map_map]
  refine List.Nodup.map ?_ (by decide)
  intro first second h
  exact SystemTable.name_injective ((getPrefixedTableName_inj tablePrefix).mp h)

theorem resolve_of_table_name {tables : List TableMeta} {tableName : JsString}
    {table : TableMeta} (h : ResolvesByTableName tablePrefix tables tableName table) :
    resolve tablePrefix tables tableName = some table := by
  have hnone : tables.find? (fun t =>
      t.title = getPrefixedTableName tablePrefix tableName) = none := find_eq_none.mpr h.1
  simp [resolve, hnone, h.2]

/-- One table answers to two logical names only through its title for the one and
its physical name for the other. -/
theorem resolve_eq_resolve_iff {tables : List TableMeta} {first second : JsString}
    (htitles : (tables.map TableMeta.title).Nodup) (hne : first ≠ second) :
    (∃ table, resolve tablePrefix tables first = some table ∧
        resolve tablePrefix tables second = some table) ↔
      ∃ table ∈ tables,
        (table.title = getPrefixedTableName tablePrefix first ∧
          ResolvesByTableName tablePrefix tables second table) ∨
        (table.title = getPrefixedTableName tablePrefix second ∧
          ResolvesByTableName tablePrefix tables first table) := by
  constructor
  · rintro ⟨table, hfirst, hsecond⟩
    obtain ⟨hmem, hfirst⟩ := resolve_eq_some hfirst
    obtain ⟨-, hsecond⟩ := resolve_eq_some hsecond
    rcases hfirst with hfirst | hfirst
    · rcases hsecond with hsecond | hsecond
      · exact absurd ((getPrefixedTableName_inj _).mp (hfirst.symm.trans hsecond)) hne
      · exact ⟨table, hmem, Or.inl ⟨hfirst, hsecond⟩⟩
    · rcases hsecond with hsecond | hsecond
      · exact ⟨table, hmem, Or.inr ⟨hsecond, hfirst⟩⟩
      · have hfirst_name := (of_find hfirst.2).2
        have hsecond_name := (of_find hsecond.2).2
        rw [hfirst_name, Option.some.injEq, getPrefixedTableName_inj] at hsecond_name
        exact absurd hsecond_name hne
  · rintro ⟨table, hmem, ⟨htitle, hname⟩ | ⟨htitle, hname⟩⟩
    · exact ⟨table, resolve_of_title htitles hmem htitle, resolve_of_table_name hname⟩
    · exact ⟨table, resolve_of_table_name hname, resolve_of_title htitles hmem htitle⟩

end

end Tables
end NocoMiddleware
