import NocoMiddleware.Data.TablePermissionsGuard
import NocoMiddleware.Js.OrderedMap

/-!
# The table lookup of the data API

`DataService.getTable` resolves the table of an admitted request, with a cache of
sixty seconds.  The main result says when a request that the guard lets through
can reach the id of a system table.
-/

namespace NocoMiddleware
namespace Data

open Js Tables Permissions

/-- `TABLE_CACHE_TTL_MS`. -/
def tableCacheTtlMs : Nat := 60000

/-- `NocoFieldMeta`, as far as the lookup reads it. -/
structure NocoFieldMeta where
  title : JsString
  type : JsString
  deriving DecidableEq

/-- `READ_ONLY_FIELD_TYPES`. -/
def readOnlyFieldTypes : List JsString :=
  [js "ID", js "AutoNumber", js "Formula", js "Rollup", js "Lookup", js "Links",
    js "LinkToAnotherRecord", js "CreatedTime", js "LastModifiedTime", js "CreatedBy",
    js "LastModifiedBy", js "Barcode", js "QrCode", js "Button"]

/-- `isReadOnly`. -/
def isReadOnly (field : NocoFieldMeta) : Bool :=
  readOnlyFieldTypes.contains field.type

/-- `fieldTitles`. -/
def fieldTitles (fields : List NocoFieldMeta) (predicate : NocoFieldMeta → Bool) :
    List JsString :=
  (fields.filter predicate).map NocoFieldMeta.title

/-- `TableInfo`. -/
structure TableInfo where
  id : JsString
  writableFields : List JsString
  readOnlyFields : List JsString
  expiresAt : Nat
  deriving DecidableEq

/-- `DataService.tables`. -/
abbrev TableCache := OrderedMap JsString TableInfo

section

variable (tablePrefix : JsString)

/-- `DataService.getTable`, with the answers of `listTables` and
`getTableMetadata` and the two readings of the clock as parameters.  It returns
the new cache as well. -/
def getTable (listTables : Except Exception (List TableMeta))
    (getTableMetadata : JsString → Except Exception (List NocoFieldMeta))
    (now later : Nat) (tables : TableCache) (table : JsString) :
    Except Exception TableInfo × TableCache :=
  match (tables.get table).filter fun cached => now < cached.expiresAt with
  | some cached => (.ok cached, tables)
  | none =>
      match listTables with
      | .error exception => (.error exception, tables)
      | .ok reported =>
          match (resolve tablePrefix reported table).filter fun t => t.id ≠ [] with
          | none =>
              (.error (.notFound (js "Table '" ++ table ++ js "' not found")),
                tables.delete table)
          | some found =>
              match getTableMetadata found.id with
              | .error exception => (.error exception, tables)
              | .ok fields =>
                  let info : TableInfo :=
                    { id := found.id
                      writableFields := fieldTitles fields fun field => !isReadOnly field
                      readOnlyFields := fieldTitles fields isReadOnly
                      expiresAt := later + tableCacheTtlMs }
                  (.ok info, tables.set table info)

/-- The caches that lookups leave behind while NocoDB reports the given tables. -/
inductive CacheOf (reported : List TableMeta) : TableCache → Prop where
  | empty : CacheOf reported .empty
  | lookup {tables : TableCache} (previous : CacheOf reported tables)
      (listTables : Except Exception (List TableMeta))
      (hlist : ∀ listed, listTables = .ok listed → listed = reported)
      (getTableMetadata : JsString → Except Exception (List NocoFieldMeta))
      (now later : Nat) (table : JsString) :
      CacheOf reported
        (getTable tablePrefix listTables getTableMetadata now later tables table).2

variable {tablePrefix}

/-- Every cached id is the id of the table that the name resolves to. -/
def ResolvesTo (tablePrefix : JsString) (reported : List TableMeta) (table id : JsString) :
    Prop :=
  ∃ found, resolve tablePrefix reported table = some found ∧ found.id = id

/-- A lookup answers with the id of the resolved table and keeps only such ids. -/
theorem getTable_resolves {reported : List TableMeta} {tables : TableCache}
    (hcache : ∀ table info, tables.get table = some info →
      ResolvesTo tablePrefix reported table info.id)
    {listTables : Except Exception (List TableMeta)}
    (hlist : ∀ listed, listTables = .ok listed → listed = reported)
    (getTableMetadata : JsString → Except Exception (List NocoFieldMeta))
    (now later : Nat) (table : JsString) :
    (∀ info, (getTable tablePrefix listTables getTableMetadata now later tables table).1 =
        .ok info → ResolvesTo tablePrefix reported table info.id) ∧
      ∀ other info,
        (getTable tablePrefix listTables getTableMetadata now later tables table).2.get other =
          some info → ResolvesTo tablePrefix reported other info.id := by
  unfold getTable
  split
  · next cached hcached =>
      refine ⟨?_, hcache⟩
      rintro info ⟨⟩
      exact hcache _ _ (Option.filter_eq_some_iff.mp hcached).1
  · split
    · exact ⟨by simp, hcache⟩
    · next listed =>
        obtain rfl := hlist listed rfl
        split
        · refine ⟨by simp, fun other info hget => ?_⟩
          -- the table is gone, so its entry is dropped
          exact hcache _ _ (OrderedMap.get_of_get_delete hget).2
        · next found hfound =>
            have hresolve := (Option.filter_eq_some_iff.mp hfound).1
            split
            · exact ⟨by simp, hcache⟩
            · next fields hfields =>
                refine ⟨?_, fun other info hget => ?_⟩
                · rintro info ⟨⟩
                  exact ⟨found, hresolve, rfl⟩
                -- the entry is replaced by the table that was just found
                · rw [OrderedMap.get_set] at hget
                  split at hget
                  · next hother =>
                      obtain rfl := hother
                      obtain rfl := Option.some.inj hget
                      exact ⟨found, hresolve, rfl⟩
                  · exact hcache _ _ hget

/-- Every id in a cache that lookups left behind is the id of the resolved
table. -/
theorem CacheOf.resolves {reported : List TableMeta} {tables : TableCache}
    (h : CacheOf tablePrefix reported tables) :
    ∀ table info, tables.get table = some info →
      ResolvesTo tablePrefix reported table info.id := by
  induction h with
  | empty => simp
  | lookup previous listTables hlist getTableMetadata now later table ih =>
      exact (getTable_resolves ih hlist getTableMetadata now later table).2

/-- No way of resolving the name reaches the id of a system table: neither
`getTableByName` nor `getTable`, whatever its cache, its clock and the metadata. -/
def Isolated (tablePrefix : JsString) (reported : List TableMeta) (table : JsString) : Prop :=
  ∀ (system : SystemTable) (found : TableMeta),
    resolve tablePrefix reported system.name = some found →
      (∀ t, resolve tablePrefix reported table = some t → t.id ≠ found.id) ∧
      ∀ tables, CacheOf tablePrefix reported tables →
        ∀ getTableMetadata now later info,
          (getTable tablePrefix (.ok reported) getTableMetadata now later tables table).1 =
            .ok info → info.id ≠ found.id

/-- A table that the guard admits is isolated from the system tables exactly when
no reported table joins the two: titled with the one name and, in the fallback
by physical name, answering to the other. -/
theorem isolated_iff (unicode : UnicodeClasses) (tablePrefix : JsString)
    (reported : List TableMeta) (htitles : (reported.map TableMeta.title).Nodup)
    (hids : (reported.map TableMeta.id).Nodup)
    (canUserPerformAction : JsNumber → JsString → CrudAction → Except Exception Bool)
    (request : DataRequest)
    (hadmitted : canActivate unicode canUserPerformAction request = .ok true) :
    Isolated tablePrefix reported (request.table.getD []) ↔
      ∀ system : SystemTable, ¬ ∃ t ∈ reported,
        (t.title = getPrefixedTableName tablePrefix (request.table.getD []) ∧
          ResolvesByTableName tablePrefix reported system.name t) ∨
        (t.title = getPrefixedTableName tablePrefix system.name ∧
          ResolvesByTableName tablePrefix reported (request.table.getD []) t) := by
  obtain ⟨-, hsystem⟩ := canActivate_table hadmitted
  generalize request.table.getD [] = table at hsystem
  have hjoined : ∀ system : SystemTable,
      (∃ t ∈ reported,
        (t.title = getPrefixedTableName tablePrefix table ∧
          ResolvesByTableName tablePrefix reported system.name t) ∨
        (t.title = getPrefixedTableName tablePrefix system.name ∧
          ResolvesByTableName tablePrefix reported table t)) ↔
      ∃ t, resolve tablePrefix reported table = some t ∧
        resolve tablePrefix reported system.name = some t :=
    fun system => (resolve_eq_resolve_iff htitles (hsystem system).symm).symm
  simp only [hjoined]
  constructor
  · rintro hisolated system ⟨t, htable, hresolved⟩
    exact (hisolated system t hresolved).1 t htable rfl
  · intro hnone system found hfound
    -- two tables with one id are one table
    have hne : ∀ t, resolve tablePrefix reported table = some t → t.id ≠ found.id := by
      intro t ht hid
      have hsame : t = found := List.inj_on_of_nodup_map hids (resolve_eq_some ht).1
        (resolve_eq_some hfound).1 hid
      exact hnone system ⟨t, ht, by rw [hfound, hsame]⟩
    refine ⟨hne, fun tables hcache getTableMetadata now later info hinfo => ?_⟩
    obtain ⟨t, ht, hid⟩ := (getTable_resolves hcache.resolves (by simp) getTableMetadata now
      later table).1 info hinfo
    rw [← hid]
    exact hne t ht

/-- The reported base of `isolated_orders`: the system tables and one more. -/
def ordersBase : List TableMeta :=
  [⟨js "t1", js "users", none⟩, ⟨js "t2", js "roles", none⟩, ⟨js "t3", js "user_roles", none⟩,
    ⟨js "t4", js "table_permissions", none⟩, ⟨js "t5", js "orders", some (js "nc_orders")⟩]

/-- An ordinary base and request. -/
theorem isolated_orders :
    Isolated [] ordersBase (js "orders") ↔
      ∀ system : SystemTable, ¬ ∃ t ∈ ordersBase,
        (t.title = getPrefixedTableName [] (js "orders") ∧
          ResolvesByTableName [] ordersBase system.name t) ∨
        (t.title = getPrefixedTableName [] system.name ∧
          ResolvesByTableName [] ordersBase (js "orders") t) :=
  isolated_iff .ascii [] ordersBase (by decide) (by decide) (fun _ _ _ => .ok false)
    ⟨js "GET", some (js "orders"), some ⟨.number (.ofNat 1), some [js "*:*"]⟩⟩ (by decide)

/-- A base as an older NocoDB reports it: the users table is titled `users` and
has a physical name of its own. -/
def physicalNameBase : List TableMeta :=
  [⟨js "t1", js "users", some (js "nc_a1___users")⟩]

/-- The guard admits a wildcard reader for the physical name, which resolves to
the users table. -/
theorem users_reachable_by_physical_name :
    canActivate .ascii (fun _ _ _ => .ok false)
        ⟨js "GET", some (js "nc_a1___users"),
          some ⟨.number (.ofNat 1), some [js "*:read"]⟩⟩ = .ok true ∧
      resolve [] physicalNameBase (js "nc_a1___users") =
        resolve [] physicalNameBase SystemTable.users.name ∧
      (getTable [] (.ok physicalNameBase) (fun _ => .ok []) 0 0 .empty
        (js "nc_a1___users")).1 = .ok ⟨js "t1", [], [], 60000⟩ ∧
      ¬ Isolated [] physicalNameBase (js "nc_a1___users") := by
  refine ⟨by decide, by decide, by decide, fun hisolated => ?_⟩
  exact (hisolated .users ⟨js "t1", js "users", some (js "nc_a1___users")⟩ (by decide)).1 _
    (by decide) rfl

end

end Data
end NocoMiddleware
