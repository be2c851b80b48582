import NocoMiddleware.Data.TableLookup
import NocoMiddleware.Js.Json
import NocoMiddleware.Permissions.PermissionSemantics

/-!
# The table catalog

`TableCatalogService.listExternalTables` and `PermissionsService.getAllWorkspaceTables`,
which take the logical names of tables from their titles.  The main result puts the
catalog beside the three places that use a logical name: the validation of table
permissions, the guard of the data API and its table lookup.
-/

namespace NocoMiddleware
namespace Data

open Js Foundation Tables Permissions Store

/-- `String.prototype.startsWith`. -/
def startsWith (text start : JsString) : Bool :=
  start.isPrefixOf text

/-- `TableEntry`; the id is a string or a number. -/
structure TableEntry where
  id : JsString ⊕ JsNumber
  title : JsString

/-- `String(table.id)`. -/
def TableEntry.idText (table : TableEntry) : JsString :=
  match table.id with
  | .inl text => text
  | .inr number => number.text

/-- `TableCatalogItemDto`. -/
structure TableCatalogItem where
  id : JsString
  tableName : JsString
  title : JsString
  deriving DecidableEq

/-- `INTERNAL_TABLE_NAMES`. -/
def internalTableNames : List JsString :=
  SystemTable.all.map SystemTable.name

/-- `normalizeTableMeta`. -/
def normalizeTableMeta (input : Json) : Option TableEntry :=
  match Json.property (some input) (js "id"), Json.property (some input) (js "title") with
  | some (.string id), some (.string title) => some ⟨.inl id, title⟩
  | some (.number id), some (.string title) => some ⟨.inr id, title⟩
  | _, _ => none

/-- A table as NocoDB reports it. -/
def tableJson (table : TableMeta) : Json :=
  .object ([(js "id", .string table.id), (js "title", .string table.title)] ++
    (table.table_name.map fun name => (js "table_name", Json.string name)).toList)

section

variable (unicode : UnicodeClasses) (tablePrefix : JsString)

/-- `TableCatalogService.listExternalTables`, on the tables that NocoDB lists. -/
def listExternalTables (tables : List Json) : List TableCatalogItem :=
  let titled := (tables.filterMap normalizeTableMeta).filter fun table =>
    startsWith table.title tablePrefix
  let items : List TableCatalogItem := titled.map fun table =>
    ⟨table.idText, table.title.drop tablePrefix.length, table.title⟩
  (items.filter fun table => !internalTableNames.contains table.tableName).filter fun table =>
    isValidTableName unicode table.tableName

/-- `PermissionsService.getAllWorkspaceTables`, on the tables that NocoDB lists. -/
def getAllWorkspaceTables (tables : List TableMeta) : List JsString :=
  ((tables.map TableMeta.title).filter fun name =>
      if tablePrefix ≠ [] then startsWith name tablePrefix else true).map fun name =>
    name.drop tablePrefix.length

/-- The checks of `SetTablePermissionsDto` on `tableName`: a string, not empty, and of the
pattern of table names. -/
def acceptsTableName (value : Json) : Bool :=
  match value with
  | .string name => name ≠ [] && isValidTableName unicode name
  | _ => false

variable {unicode tablePrefix}

theorem startsWith_iff {text start : JsString} :
    startsWith text start = true ↔ ∃ rest, text = start ++ rest := by
  rw [startsWith, List.isPrefixOf_iff_prefix]
  constructor
  · rintro ⟨rest, rfl⟩
    exact ⟨rest, rfl⟩
  · rintro ⟨rest, rfl⟩
    exact ⟨rest, rfl⟩

theorem normalizeTableMeta_tableJson (table : TableMeta) :
    normalizeTableMeta (tableJson table) = some ⟨.inl table.id, table.title⟩ := by
  have hne : (js "title" == js "id") = false := by decide
  simp [normalizeTableMeta, tableJson, Json.property, List.lookup_cons, hne]

theorem not_mem_internalTableNames_iff {name : JsString} :
    name ∉ internalTableNames ↔ ∀ system : SystemTable, system.name ≠ name := by
  rw [internalTableNames, List.mem_map]
  constructor
  · intro h system hname
    exact h ⟨system, system.mem_all, hname⟩
  · rintro h ⟨system, -, hname⟩
    exact h system hname

/-- The catalog lists the tables whose title is the prefix and a valid name that is not
the name of a system table, each under that name. -/
theorem mem_listExternalTables {reported : List TableMeta} {item : TableCatalogItem} :
    item ∈ listExternalTables unicode tablePrefix (reported.map tableJson) ↔
      ∃ table ∈ reported, ∃ name, table.title = getPrefixedTableName tablePrefix name ∧
        isValidTableName unicode name = true ∧ (∀ system : SystemTable, system.name ≠ name) ∧
        item = ⟨table.id, name, table.title⟩ := by
  simp only [listExternalTables, List.mem_filter, List.mem_map, List.mem_filterMap,
    Bool.not_eq_true', List.contains_eq_mem, decide_eq_false_iff_not,
    not_mem_internalTableNames_iff]
  constructor
  · rintro ⟨⟨⟨entry, ⟨⟨_, ⟨table, hmem, rfl⟩, hentry⟩, hstarts⟩, rfl⟩, hsystem⟩, hvalid⟩
    rw [normalizeTableMeta_tableJson] at hentry
    obtain rfl := Option.some.inj hentry
    obtain ⟨name, htitle⟩ := startsWith_iff.mp hstarts
    change table.title = tablePrefix ++ name at htitle
    have hname : table.title.drop tablePrefix.length = name := by
      rw [htitle, List.drop_left]
    simp only [hname] at hsystem hvalid
    refine ⟨table, hmem, name, htitle, hvalid, hsystem, ?_⟩
    simp only [hname]
    rfl
  · rintro ⟨table, hmem, name, htitle, hvalid, hsystem, rfl⟩
    have hname : table.title.drop tablePrefix.length = name := by
      rw [htitle, getPrefixedTableName, List.drop_left]
    refine ⟨⟨⟨⟨.inl table.id, table.title⟩, ⟨⟨_, ⟨table, hmem, rfl⟩, ?_⟩, ?_⟩, ?_⟩, hsystem⟩,
      hvalid⟩
    · exact normalizeTableMeta_tableJson table
    · exact startsWith_iff.mpr ⟨name, htitle⟩
    · simp only [hname]
      rfl

/-- No table is listed twice. -/
theorem nodup_listExternalTables {reported : List TableMeta}
    (htitles : (reported.map TableMeta.title).Nodup) :
    ((listExternalTables unicode tablePrefix (reported.map tableJson)).map
      TableCatalogItem.title).Nodup := by
  have hnormalized : (reported.map tableJson).filterMap normalizeTableMeta =
      reported.map fun table => ⟨.inl table.id, table.title⟩ := by
    rw [List.filterMap_map, ← List.filterMap_eq_map]
    apply List.filterMap_congr
    intro table _
    exact normalizeTableMeta_tableJson table
  rw [listExternalTables, hnormalized]
  -- what is listed is a part of the reported tables, in their order
  have hpart : ∀ items : List TableCatalogItem, (items.map TableCatalogItem.title).Nodup →
      ∀ keep : TableCatalogItem → Bool, ((items.filter keep).map TableCatalogItem.title).Nodup :=
    fun items hitems keep => hitems.sublist (List.filter_sublist.map _)
  apply hpart
  apply hpart
  rw [List.map_map]
  refine (List.Nodup.sublist (List.filter_sublist.map TableEntry.title) ?_)
  rw [List.map_map]
  exact htitles

theorem mem_getAllWorkspaceTables {reported : List TableMeta} {table : TableMeta}
    {name : JsString} (hmem : table ∈ reported)
    (htitle : table.title = getPrefixedTableName tablePrefix name) :
    name ∈ getAllWorkspaceTables tablePrefix reported := by
  rw [getAllWorkspaceTables, List.mem_map]
  refine ⟨table.title, List.mem_filter.mpr ⟨List.mem_map_of_mem hmem, ?_⟩, ?_⟩
  · by_cases hstarts : tablePrefix = []
    · simp [hstarts]
    · simp only [ne_eq, hstarts, not_false_eq_true, if_true]
      exact startsWith_iff.mpr ⟨name, htitle⟩
  · rw [htitle, getPrefixedTableName, List.drop_left]

/-! ## One name for a table -/

/-- The user is granted the action on the table: by a scope, by the answer of the
permission check, or by the system tables that the check reads. -/
def GrantedTo (tablePrefix : JsString)
    (canUserPerformAction : JsNumber → JsString → CrudAction → Except Exception Bool)
    (user : DataUser) (name : JsString) (action : CrudAction) : Prop :=
  let userId := user.userId.toNumber
  hasScopePermission user.scope name action = true ∨
    canUserPerformAction userId name action = .ok true ∨
    ∃ world final, world.cache = .empty ∧ Grants tablePrefix world userId name action ∧
      Exec (nocodb false).contract
        (Permissions.canUserPerformAction tablePrefix userId name action) world
        (canUserPerformAction userId name action) final

/-- The guard lets a request through that names a valid table, if its user is granted the
action of its method. -/
theorem canActivate_of_grantedTo
    {canUserPerformAction : JsNumber → JsString → CrudAction → Except Exception Bool}
    {request : DataRequest} {name : JsString} {action : CrudAction} {user : DataUser}
    (hvalid : isValidTableName unicode name = true)
    (hsystem : ∀ system : SystemTable, system.name ≠ name) (htable : request.table = some name)
    (hmethod : methodAction (toUpperCase request.method) = some action)
    (huser : request.user = some user) (htruthy : user.userId.truthy = true)
    (hgranted : GrantedTo tablePrefix canUserPerformAction user name action) :
    canActivate unicode canUserPerformAction request = .ok true := by
  have hadmitted : hasScopePermission user.scope name action = true ∨
      canUserPerformAction user.userId.toNumber name action = .ok true := by
    rcases hgranted with hscope | hanswer | ⟨world, final, hcache, hgrants, hexec⟩
    · exact Or.inl hscope
    · exact Or.inr hanswer
    · exact Or.inr ((wp_sound (wp_canUserPerformAction hcache) hexec).mpr hgrants)
  have hcontains : name ∉ systemTables := by
    intro hmem
    obtain ⟨system, -, hname⟩ := List.mem_map.mp hmem
    exact hsystem system hname
  simp only [canActivate, htable, Option.getD_some, hvalid, hmethod, huser, htruthy, if_true,
    Bool.not_true, Bool.false_or, List.contains_eq_mem, hcontains, decide_false,
    Bool.false_eq_true, if_false]
  rcases hadmitted with hscope | hanswer
  · simp [hscope, bind, Except.bind, pure, Except.pure]
  · by_cases hscope : hasScopePermission user.scope name action = true
    · simp [hscope, bind, Except.bind, pure, Except.pure]
    · simp [hscope, hanswer, bind, Except.bind, pure, Except.pure]

/-- With the tables as reported, `getTable` answers with the id of the table that has the
prefixed name for a title, whatever lookups its cache holds. -/
theorem getTable_of_title {reported : List TableMeta} {table : TableMeta} {name : JsString}
    (htitles : (reported.map TableMeta.title).Nodup) (hmem : table ∈ reported)
    (hid : table.id ≠ []) (htitle : table.title = getPrefixedTableName tablePrefix name)
    {tables : TableCache} (hcache : CacheOf tablePrefix reported tables)
    {getTableMetadata : JsString → Except Exception (List NocoFieldMeta)}
    {fields : List NocoFieldMeta} (hfields : getTableMetadata table.id = .ok fields)
    (now later : Nat) :
    ∃ info, (getTable tablePrefix (.ok reported) getTableMetadata now later tables name).1 =
      .ok info ∧ info.id = table.id := by
  have hresolve := resolve_of_title htitles hmem htitle
  obtain ⟨info, hinfo⟩ : ∃ info,
      (getTable tablePrefix (.ok reported) getTableMetadata now later tables name).1 =
        .ok info := by
    unfold getTable
    split
    · next cached _ => exact ⟨cached, rfl⟩
    · have hlisted : (resolve tablePrefix reported name).filter (fun t => t.id ≠ []) =
          some table := by
        rw [hresolve]
        simp [hid]
      simp only [hlisted, hfields]
      exact ⟨_, rfl⟩
  obtain ⟨found, hfound, hsame⟩ := (getTable_resolves hcache.resolves (by simp)
    getTableMetadata now later name).1 info hinfo
  rw [hresolve] at hfound
  obtain rfl := Option.some.inj hfound
  exact ⟨info, hinfo, hsame.symm⟩

/-- The catalog lists each table with the prefix, a valid name and no system name once,
and nothing else; and the name that it lists a table under is one that permissions can be
set for, that the guard admits where the action is granted, that the data API resolves to
the listed id, and that occurs among the tables of the workspace. -/
theorem catalog_names_agree (unicode : UnicodeClasses) (tablePrefix : JsString)
    (reported : List TableMeta) (hids : ∀ table ∈ reported, table.id ≠ [])
    (htitles : (reported.map TableMeta.title).Nodup) :
    ((listExternalTables unicode tablePrefix (reported.map tableJson)).map
        TableCatalogItem.title).Nodup ∧
      (∀ item, item ∈ listExternalTables unicode tablePrefix (reported.map tableJson) ↔
        ∃ table ∈ reported, ∃ name, table.title = tablePrefix ++ name ∧
          isValidTableName unicode name = true ∧
          (∀ system : SystemTable, system.name ≠ name) ∧
          item = ⟨table.id, name, table.title⟩) ∧
      ∀ item ∈ listExternalTables unicode tablePrefix (reported.map tableJson),
        acceptsTableName unicode (.string item.tableName) = true ∧
        (∀ canUserPerformAction request action user, request.table = some item.tableName →
          methodAction (toUpperCase request.method) = some action →
          request.user = some user → user.userId.truthy = true →
          GrantedTo tablePrefix canUserPerformAction user item.tableName action →
            canActivate unicode canUserPerformAction request = .ok true) ∧
        (∀ tables, CacheOf tablePrefix reported tables →
          ∀ getTableMetadata fields, getTableMetadata item.id = .ok fields → ∀ now later,
            ∃ info, (getTable tablePrefix (.ok reported) getTableMetadata now later tables
              item.tableName).1 = .ok info ∧ info.id = item.id) ∧
        item.tableName ∈ getAllWorkspaceTables tablePrefix reported := by
  refine ⟨nodup_listExternalTables htitles, fun item => mem_listExternalTables, ?_⟩
  intro item hitem
  obtain ⟨table, hmem, name, htitle, hvalid, hsystem, rfl⟩ := mem_listExternalTables.mp hitem
  refine ⟨?_, ?_, ?_, ?_⟩
  · simp [acceptsTableName, hvalid, ne_nil_of_isValidTableName hvalid]
  · intro perform request action user htable hmethod huser htruthy hgranted
    exact canActivate_of_grantedTo hvalid hsystem htable hmethod huser htruthy hgranted
  · intro tables hcache getTableMetadata fields hfields now later
    exact getTable_of_title htitles hmem (hids table hmem) htitle hcache hfields now later
  · exact mem_getAllWorkspaceTables hmem htitle

/-- A base with a table of the middleware, one of a client and one without the prefix. -/
def prefixedBase : List TableMeta :=
  [⟨js "t1", js "app_users", none⟩, ⟨js "t2", js "app_orders", some (js "nc_1")⟩,
    ⟨js "t3", js "orders", some (js "app_orders")⟩]

theorem catalog_names_agree_orders :
    listExternalTables .ascii (js "app_") (prefixedBase.map tableJson) =
        [⟨js "t2", js "orders", js "app_orders"⟩] ∧
      ∃ info, (getTable (js "app_") (.ok prefixedBase) (fun _ => .ok []) 0 0 .empty
        (js "orders")).1 = .ok info ∧ info.id = js "t2" := by
  have hlisted : listExternalTables .ascii (js "app_") (prefixedBase.map tableJson) =
      [⟨js "t2", js "orders", js "app_orders"⟩] := by decide
  obtain ⟨-, -, hagree⟩ := catalog_names_agree .ascii (js "app_") prefixedBase
    (by decide) (by decide)
  obtain ⟨-, -, hresolves, -⟩ := hagree ⟨js "t2", js "orders", js "app_orders"⟩
    (by rw [hlisted]; exact List.mem_singleton_self _)
  exact ⟨hlisted, hresolves .empty .empty (fun _ => .ok []) [] rfl 0 0⟩

end

end Data
end NocoMiddleware
