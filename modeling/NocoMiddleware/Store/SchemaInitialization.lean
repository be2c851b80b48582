import NocoMiddleware.Foundation.Lifting
import NocoMiddleware.Store.DatabaseInitialization

/-!
# The system tables at startup

`onModuleInit` of `database-initialization.service.ts`: each system table is created, or
extended by the fields that it lacks, and then the permissions are seeded.  `Base` is the
world of the services with the fields of each table, and `nocodbBase` answers the requests
for tables and fields besides those of the services.
-/

namespace NocoMiddleware
namespace Store

open NocoMiddleware.Js NocoMiddleware.Filter NocoMiddleware.Tables NocoMiddleware.Permissions
open NocoMiddleware.Foundation

/-- `NocoFieldDefinition`. -/
structure NocoField where
  title : JsString
  type : JsString
  deriving DecidableEq

/-- `TableDefinition`. -/
structure TableDefinition where
  tableName : JsString
  title : JsString
  fields : List NocoField

/-- The definition of a system table. -/
def systemTableDefinition (table : SystemTable) : TableDefinition where
  tableName := table.name
  title :=
    match table with
    | .users => js "Users"
    | .roles => js "Roles"
    | .userRoles => js "User Roles"
    | .tablePermissions => js "Table Permissions"
  fields :=
    match table with
    | .users =>
        [⟨js "username", js "SingleLineText"⟩, ⟨js "email", js "Email"⟩,
          ⟨js "password_hash", js "LongText"⟩, ⟨js "is_active", js "Checkbox"⟩,
          ⟨js "auth_provider", js "SingleLineText"⟩, ⟨js "external_subject", js "SingleLineText"⟩]
    | .roles =>
        [⟨js "role_name", js "SingleLineText"⟩, ⟨js "description", js "LongText"⟩,
          ⟨js "is_system_role", js "Checkbox"⟩]
    | .userRoles =>
        [⟨js "user_id", js "Number"⟩, ⟨js "role_id", js "Number"⟩,
          ⟨js "assigned_at", js "DateTime"⟩]
    | .tablePermissions =>
        [⟨js "role_id", js "Number"⟩, ⟨js "table_name", js "SingleLineText"⟩,
          ⟨js "can_create", js "Checkbox"⟩, ⟨js "can_read", js "Checkbox"⟩,
          ⟨js "can_update", js "Checkbox"⟩, ⟨js "can_delete", js "Checkbox"⟩]

/-- `SYSTEM_TABLE_DEFINITIONS`. -/
def systemTableDefinitions : List TableDefinition :=
  SystemTable.all.map systemTableDefinition

/-- `LEGACY_LINK_FIELDS[tableName]`. -/
def legacyLinkFields (tableName : JsString) : Option (List JsString) :=
  if tableName = js "user_roles" then some [js "user", js "role"]
  else if tableName = js "table_permissions" then some [js "role"]
  else none

/-- `LINK_FIELD_TYPES`. -/
def linkFieldTypes : List JsString :=
  [js "Links", js "LinkToAnotherRecord"]

/-! ## The requests for tables and fields -/

/-- The requests besides those of the services. -/
inductive SchemaOp where
  | getTableMetadata (tableId : JsString)
  | createTable (title : JsString) (description : Option JsString) (fields : List NocoField)
  | createColumn (tableId : JsString) (field : NocoField)
  deriving DecidableEq

/-- Their answers: of the metadata, the fields; of a new field, nothing is used. -/
@[reducible] def SchemaRes : SchemaOp → Type
  | .getTableMetadata _ => Option (List NocoField)
  | .createTable _ _ _ => TableMeta
  | .createColumn _ _ => PUnit

/-- Programs of the startup. -/
abbrev Startup := Program (Op ⊕ SchemaOp) (Sum.elim Res SchemaRes) Exception

/-- The state of NocoDB with the fields of its tables, by table id. -/
structure Base where
  world : World
  fields : JsString → List NocoField

namespace Base

/-- The part of a base that the services act on. -/
def focus : Focus Base World where
  get := Base.world
  set base world := { base with world := world }
  get_set _ _ := rfl
  set_get _ := rfl
  set_set _ _ _ := rfl

/-- Time passes. -/
def advance (base : Base) (elapsed : Nat) : Base :=
  { base with world := base.world.advance elapsed }

/-- The base with a new table, which has no rows. -/
def addTable (base : Base) (table : TableMeta) (fields : List NocoField) : Base where
  world :=
    { base.world with
      tables := base.world.tables ++ [table]
      rows := Function.update base.world.rows table.id Table.empty }
  fields := Function.update base.fields table.id fields

/-- The base with a new field of a table. -/
def addField (base : Base) (tableId : JsString) (field : NocoField) : Base :=
  { base with fields := Function.update base.fields tableId (base.fields tableId ++ [field]) }

/-- The base has a table with the id. -/
def HasTable (base : Base) (tableId : JsString) : Prop :=
  tableId ∈ base.world.tables.map TableMeta.id

instance (base : Base) (tableId : JsString) : Decidable (base.HasTable tableId) :=
  inferInstanceAs (Decidable (_ ∈ _))

end Base

/-- The free choices in the answer to a request, with the id and the physical name of a new
table. -/
structure StartupChoice where
  choice : Choice
  tableId : JsString
  table_name : Option JsString

/-- The answer to a request for tables or fields that does not fail.  A new table is the last
of the base. -/
def schemaAnswer (choice : StartupChoice) (base : Base) :
    (op : SchemaOp) → Except Exception (SchemaRes op) × Base
  | .getTableMetadata tableId =>
      if base.HasTable tableId then (.ok (some (base.fields tableId)), base)
      else (.error .upstream, base)
  | .createTable title _ fields =>
      let created : TableMeta := ⟨choice.tableId, title, choice.table_name⟩
      (.ok created, base.addTable created fields)
  | .createColumn tableId field =>
      if base.HasTable tableId then (.ok ⟨⟩, base.addField tableId field)
      else (.error .upstream, base)

/-- The choices that NocoDB may make: it fails only when faults are allowed, and a new table
has an id that is not empty and not in use. -/
def StartupChoice.legal (faults : Bool) (choice : StartupChoice) (base : Base) :
    Op ⊕ SchemaOp → Bool
  | .inl op => choice.choice.legal faults op base.world
  | .inr (.createTable _ _ _) =>
      (!choice.choice.fails || faults) && decide (choice.tableId ≠ []) &&
        !decide (base.HasTable choice.tableId)
  | .inr _ => !choice.choice.fails || faults

/-- The answer to a request. -/
def startupRespond (choice : StartupChoice) (base : Base) :
    (op : Op ⊕ SchemaOp) → Except Exception (Sum.elim Res SchemaRes op) × Base
  | .inl op =>
      ((respond choice.choice op base.world).1,
        { base with world := (respond choice.choice op base.world).2 })
  | .inr op =>
      if choice.choice.fails then (.error .upstream, base.advance choice.choice.elapsed)
      else schemaAnswer choice (base.advance choice.choice.elapsed) op

/-- A base as an environment of programs. -/
def nocodbBase (faults : Bool) :
    System (Op ⊕ SchemaOp) (Sum.elim Res SchemaRes) Exception Base StartupChoice where
  legal choice op base := choice.legal faults base op = true
  respond choice op base := startupRespond choice base op

instance (faults : Bool) (choice : StartupChoice) (op : Op ⊕ SchemaOp) (base : Base) :
    Decidable ((nocodbBase faults).legal choice op base) :=
  inferInstanceAs (Decidable (choice.legal faults base op = true))

/-! ## The methods -/

/-- One request for tables or fields. -/
def request (op : SchemaOp) : Startup (SchemaRes op) :=
  .perform (Sum.inr op) Program.done

/-- `getTableMetadata`, of which only the fields are used. -/
def getTableMetadata (tableId : JsString) : Startup (Option (List NocoField)) :=
  request (.getTableMetadata tableId)

/-- `createTable`. -/
def createTable (tablePrefix tableName title : JsString) (fields : List NocoField) :
    Startup TableMeta :=
  request (.createTable (getPrefixedTableName tablePrefix tableName)
    (if title ≠ tableName then some title else none) fields)

/-- `createColumn`. -/
def createColumn (tableId : JsString) (field : NocoField) : Startup PUnit :=
  request (.createColumn tableId field)

/-- A field of the schema up to 0.7.x. -/
def isLegacyField (legacyFields : List JsString) (field : NocoField) : Bool :=
  linkFieldTypes.contains field.type && legacyFields.contains field.title

/-- `assertNoLegacyLinkFields`. -/
def assertNoLegacyLinkFields (tableId tableName fullTableName : JsString) : Startup PUnit :=
  match legacyLinkFields tableName with
  | none => pure ⟨⟩
  | some legacyFields => do
      let fields ← getTableMetadata tableId
      if (fields.getD []).any (isLegacyField legacyFields) then
        throw (.intrinsic (js "Table " ++ fullTableName ++
          js " uses the legacy schema of versions up to 0.7.x, which is not supported. " ++
          js "Delete or rename the old system tables in NocoDB and restart; " ++
          js "they are recreated empty."))
      else pure ⟨⟩

/-- One round of the loop of `ensureFieldsExist`; a failure is only logged. -/
def ensureFieldExists (tableId : JsString) (existingFields : List JsString) (field : NocoField) :
    Startup PUnit :=
  if existingFields.contains field.title then pure ⟨⟩
  else tryCatch (createColumn tableId field) fun _ => pure ⟨⟩

/-- `ensureFieldsExist`; a failure is only logged. -/
def ensureFieldsExist (tableId : JsString) (fields : List NocoField) : Startup PUnit :=
  tryCatch
    (do
      let tableMetadata ← getTableMetadata tableId
      let existingFields := (tableMetadata.getD []).map NocoField.title
      forM fields (ensureFieldExists tableId existingFields))
    fun _ => pure ⟨⟩

section

variable (tablePrefix : JsString)

/-- `ensureTableExists`. -/
def ensureTableExists (tableDef : TableDefinition) : Startup (Option JsString) := do
  let existingTable ← (getTableByName tablePrefix tableDef.tableName).lift
  match existingTable with
  | some existingTable =>
      assertNoLegacyLinkFields existingTable.id tableDef.tableName
        (getPrefixedTableName tablePrefix tableDef.tableName)
      ensureFieldsExist existingTable.id tableDef.fields
      return some existingTable.id
  | none =>
      tryCatch
        (do
          let response ← createTable tablePrefix tableDef.tableName tableDef.title tableDef.fields
          return some response.id)
        fun _ => pure none

/-- The loop of `initializeTables` and the seeding after it. -/
def initializeTablesFrom : List TableDefinition → Startup PUnit
  | [] => (seedDefaultPermissions tablePrefix).lift
  | tableDef :: remaining => do
      let tableId ← ensureTableExists tablePrefix tableDef
      match tableId.filter fun tableId => tableId ≠ [] with
      | none => return
      | some _ => initializeTablesFrom remaining

/-- `initializeTables`. -/
def initializeTables : Startup PUnit :=
  initializeTablesFrom tablePrefix systemTableDefinitions

/-- `onModuleInit`. -/
def onModuleInit : Startup PUnit :=
  initializeTables tablePrefix

end

end Store
end NocoMiddleware
