import NocoMiddleware.Runs.Startup
import NocoMiddleware.Store.Changes

/-!
# Legacy schemas at startup

Where no request fails, `onModuleInit` rejects exactly the bases with a legacy table, that is
one with a link field in the place of a numeric id.  It may have created and extended the
system tables before the legacy one by then, but no record has been written and no legacy
table has a new field.
-/

namespace NocoMiddleware
namespace Runs

open NocoMiddleware.Js NocoMiddleware.Filter NocoMiddleware.Tables NocoMiddleware.Store
open NocoMiddleware.Permissions NocoMiddleware.Foundation

/-- The name of the table resolves, to a table with a link field of one of the titles. -/
def HasLinkField (tablePrefix : JsString) (base : Base) (table : SystemTable)
    (titles : List JsString) : Prop :=
  ∃ found, resolve tablePrefix base.world.tables table.name = some found ∧
    ∃ field ∈ base.fields found.id, field.type ∈ linkFieldTypes ∧ field.title ∈ titles

/-- The startup was stopped at one of the system tables. -/
def StoppedAtLegacy (tablePrefix : JsString) (result : Except Exception PUnit) : Prop :=
  ∃ table : SystemTable,
    result = .error (legacySchemaError (getPrefixedTableName tablePrefix table.name))

/-- No table has other records, and no legacy table has other fields. -/
structure Undamaged (tablePrefix : JsString) (base base' : Base) : Prop where
  records : ∀ tableId, recordsOf base' tableId = recordsOf base tableId
  fields : ∀ (table : SystemTable) found, HasLegacyField tablePrefix base table.name →
    resolve tablePrefix base.world.tables table.name = some found →
    base'.fields found.id = base.fields found.id

/-- No other system table name resolves to a legacy table. -/
def LegacyApart (tablePrefix : JsString) (base : Base) : Prop :=
  ∀ legacy : SystemTable, HasLegacyField tablePrefix base legacy.name →
    ∀ other, other ≠ legacy → ∀ found table,
      resolve tablePrefix base.world.tables legacy.name = some found →
      resolve tablePrefix base.world.tables other.name = some table → table.id ≠ found.id

section

variable {tablePrefix : JsString} {base base' : Base}

/-! ## Legacy tables -/

theorem hasLegacyField_iff_hasLinkField (table : SystemTable) :
    HasLegacyField tablePrefix base table.name ↔
      ∃ titles, legacyLinkFields table.name = some titles ∧
        HasLinkField tablePrefix base table titles := by
  unfold HasLegacyField HasLinkField
  simp only [isLegacyField, Bool.and_eq_true, List.contains_iff_mem]
  constructor
  · rintro ⟨found, titles, hresolve, htitles, hfield⟩
    exact ⟨titles, htitles, found, hresolve, hfield⟩
  · rintro ⟨titles, htitles, found, hresolve, hfield⟩
    exact ⟨found, titles, hresolve, htitles, hfield⟩

/-- The legacy tables are the ones that the names `user_roles` and `table_permissions` resolve
to, with the link fields of each. -/
theorem exists_hasLegacyField_iff :
    (∃ table : SystemTable, HasLegacyField tablePrefix base table.name) ↔
      HasLinkField tablePrefix base .userRoles [js "user", js "role"] ∨
        HasLinkField tablePrefix base .tablePermissions [js "role"] := by
  have husers : legacyLinkFields SystemTable.users.name = none := by decide
  have hroles : legacyLinkFields SystemTable.roles.name = none := by decide
  have huserRoles : legacyLinkFields SystemTable.userRoles.name =
      some [js "user", js "role"] := by decide
  have hpermissions : legacyLinkFields SystemTable.tablePermissions.name =
      some [js "role"] := by decide
  simp only [hasLegacyField_iff_hasLinkField]
  constructor
  · rintro ⟨table, titles, htitles, hlink⟩
    cases table with
    | users => rw [husers] at htitles; contradiction
    | roles => rw [hroles] at htitles; contradiction
    | userRoles =>
        rw [huserRoles] at htitles
        obtain rfl := Option.some.inj htitles
        exact Or.inl hlink
    | tablePermissions =>
        rw [hpermissions] at htitles
        obtain rfl := Option.some.inj htitles
        exact Or.inr hlink
  · rintro (hlink | hlink)
    · exact ⟨.userRoles, _, huserRoles, hlink⟩
    · exact ⟨.tablePermissions, _, hpermissions, hlink⟩

theorem legacyApart_of_distinct (hdistinct : DistinctTables tablePrefix base.world.tables) :
    LegacyApart tablePrefix base := by
  intro legacy _ other hne found table hfound htable
  exact hdistinct other legacy hne table found htable hfound

/-- New tables and fields do not make a name resolve to a legacy table. -/
theorem LegacyApart.grows (hapart : LegacyApart tablePrefix base)
    (h : SchemaGrows tablePrefix base base') : LegacyApart tablePrefix base' := by
  intro legacy hlegacy other hne found table hfound htable heq
  have hlegacy := h.hasLegacyField_iff.mp hlegacy
  obtain ⟨before, hbefore⟩ := hlegacy.exists_resolve
  obtain rfl := Option.some.inj ((h.resolves _ _ hbefore).symm.trans hfound)
  have hhas : base.HasTable table.id := by
    rw [heq]
    exact hasTable_of_resolve hbefore
  have hother := h.resolve_of_hasTable htable hhas
  exact hapart legacy hlegacy other hne before table hbefore hother heq

/-! ## A startup that is stopped -/

theorem Undamaged.of_unchanged (h : base.Unchanged base') : Undamaged tablePrefix base base' := by
  constructor
  · intro tableId
    simp only [recordsOf, h.hasTable, h.world.rows]
  · intro table found _ _
    rw [h.fields]

theorem Undamaged.trans {middle : Base} (h : Undamaged tablePrefix base middle)
    (h' : Undamaged tablePrefix middle base') (hgrows : SchemaGrows tablePrefix base middle) :
    Undamaged tablePrefix base base' := by
  constructor
  · intro tableId
    rw [h'.records, h.records]
  · intro table found hlegacy hfound
    rw [← h.fields table found hlegacy hfound]
    exact h'.fields table found (hgrows.hasLegacyField_iff.mpr hlegacy)
      (hgrows.resolves _ _ hfound)

theorem recordsOf_grows (h : SchemaGrows tablePrefix base base') (tableId : JsString) :
    recordsOf base' tableId = recordsOf base tableId := by
  unfold recordsOf
  by_cases hbase : base.HasTable tableId
  · rw [if_pos hbase, if_pos (h.hasTable hbase), h.rows tableId hbase]
  · rw [if_neg hbase]
    split
    · next hhas =>
        rw [h.noRows tableId hhas hbase]
        rfl
    · rfl

/-- A table that is no legacy one is ensured without damage. -/
theorem undamaged_of_ensured {table : SystemTable} (hapart : LegacyApart tablePrefix base)
    (hnone : ¬ HasLegacyField tablePrefix base table.name)
    (hensured : Ensured tablePrefix table base base')
    (hkept : OtherFieldsKept tablePrefix table.name base base') :
    Undamaged tablePrefix base base' := by
  constructor
  · exact recordsOf_grows hensured.grows
  · intro legacy found hlegacy hfound
    apply hkept found.id (hasTable_of_resolve hfound)
    intro other hother
    have hne : table ≠ legacy := by
      rintro rfl
      contradiction
    exact hapart legacy hlegacy table hne found other hfound hother

/-- The loop reaches the first legacy table, and stops there. -/
theorem wp_initializeTablesFrom_legacy {remaining : List SystemTable}
    (hids : ∀ table ∈ base.world.tables, table.id ≠ [])
    (hapart : LegacyApart tablePrefix base)
    (hlegacy : ∃ table ∈ remaining, HasLegacyField tablePrefix base table.name) :
    wp (nocodbBase false).contract
      (initializeTablesFrom tablePrefix (remaining.map systemTableDefinition))
      (fun result base' => StoppedAtLegacy tablePrefix result ∧
        Undamaged tablePrefix base base') base := by
  induction remaining generalizing base with
  | nil =>
      obtain ⟨table, hmem, -⟩ := hlegacy
      contradiction
  | cons table remaining ih =>
      rw [List.map_cons, initializeTablesFrom, wp_bind]
      apply wp_mono (wp_ensureTableExists_outcome hids)
      intro result base₁ houtcome
      cases houtcome with
      | stopped _ hunchanged => exact ⟨⟨table, rfl⟩, Undamaged.of_unchanged hunchanged⟩
      | ensured tableId hid hnone hensured hkept =>
          have hgrows := hensured.grows
          rw [onOk_ok, filter_ne_nil hid]
          -- the legacy table comes later
          have hlater : ∃ other ∈ remaining, HasLegacyField tablePrefix base₁ other.name := by
            obtain ⟨other, hmem, hother⟩ := hlegacy
            rcases List.mem_cons.mp hmem with rfl | hmem
            · contradiction
            · exact ⟨other, hmem, hgrows.hasLegacyField_iff.mpr hother⟩
          apply wp_mono (ih (hgrows.ids_ne_nil hids) (hapart.grows hgrows) hlater)
          rintro result base₂ ⟨hstopped, hundamaged⟩
          have hfirst := undamaged_of_ensured hapart hnone hensured hkept
          exact ⟨hstopped, hfirst.trans hundamaged hgrows⟩

theorem stopped_of_exec {result : Except Exception PUnit}
    (hids : ∀ table ∈ base.world.tables, table.id ≠ [])
    (hapart : LegacyApart tablePrefix base)
    (hlegacy : ∃ table : SystemTable, HasLegacyField tablePrefix base table.name)
    (hexec : Exec (nocodbBase false).contract (onModuleInit tablePrefix) base result base') :
    StoppedAtLegacy tablePrefix result ∧ Undamaged tablePrefix base base' := by
  obtain ⟨table, htable⟩ := hlegacy
  exact wp_sound (wp_initializeTablesFrom_legacy hids hapart
    ⟨table, SystemTable.mem_all table, htable⟩) hexec

/-- `onModuleInit` rejects with the legacy-schema error exactly where a legacy table is there,
and a startup that rejects has written no record and no field of a legacy table. -/
theorem legacy_stops_startup {result : Except Exception PUnit}
    (hids : ∀ table ∈ base.world.tables, table.id ≠ [])
    (hdistinct : DistinctTables tablePrefix base.world.tables)
    (hexec : Exec (nocodbBase false).contract (onModuleInit tablePrefix) base result base') :
    (StoppedAtLegacy tablePrefix result ↔
        HasLinkField tablePrefix base .userRoles [js "user", js "role"] ∨
          HasLinkField tablePrefix base .tablePermissions [js "role"]) ∧
      ∀ exception, result = .error exception →
        StoppedAtLegacy tablePrefix result ∧ Undamaged tablePrefix base base' := by
  rw [← exists_hasLegacyField_iff]
  by_cases hlegacy : ∃ table : SystemTable, HasLegacyField tablePrefix base table.name
  · have hstopped := stopped_of_exec hids (legacyApart_of_distinct hdistinct) hlegacy hexec
    exact ⟨⟨fun _ => hlegacy, fun _ => hstopped.1⟩, fun _ _ => hstopped⟩
  · have hstart : Startable tablePrefix base := by
      rw [startable_iff]
      refine ⟨hids, fun tableName hname => hlegacy ?_⟩
      obtain ⟨table, rfl⟩ := hname.exists_name
      exact ⟨table, hname⟩
    obtain ⟨rfl, -⟩ := started_of_exec hstart hexec
    refine ⟨⟨?_, fun h => absurd h hlegacy⟩, nofun⟩
    rintro ⟨table, htable⟩
    contradiction

end

/-- A base with all system tables, where `users` and `roles` lack fields and `user_roles` has a
row and the link fields of version 0.7. -/
def legacyBase : Base where
  world :=
    { tables := systemTables []
      rows := fun tableId =>
        if tableId = SystemTable.userRoles.name then .ofRows [.ofCells 1 []] else .empty
      cache := .empty
      clock := 0 }
  fields := fun tableId =>
    if tableId = SystemTable.users.name then [⟨js "username", js "SingleLineText"⟩]
    else if tableId = SystemTable.userRoles.name then
      [⟨js "user", js "LinkToAnotherRecord"⟩, ⟨js "role", js "Links"⟩]
    else []

/-- The startup extends `users` and `roles`, and stops at `user_roles`. -/
theorem legacy_stops_startup_user_roles :
    Undamaged [] legacyBase
        ((nocodbBase false).final (onModuleInit []) startupChoices legacyBase) ∧
      ((nocodbBase false).final (onModuleInit []) startupChoices legacyBase).fields
        SystemTable.roles.name = (systemTableDefinition .roles).fields := by
  have hids : ∀ table ∈ legacyBase.world.tables, table.id ≠ [] := by
    decide
  have hexec : Exec (nocodbBase false).contract (onModuleInit []) legacyBase
      (.error (legacySchemaError (js "user_roles")))
      ((nocodbBase false).final (onModuleInit []) startupChoices legacyBase) :=
    System.exec_final _ (by decide +kernel)
  have hstopped := legacy_stops_startup hids (distinctTables_systemTables []) hexec
  exact ⟨(hstopped.2 _ rfl).2, by decide +kernel⟩

end Runs
end NocoMiddleware
