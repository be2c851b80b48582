import NocoMiddleware.Data.DataService
import NocoMiddleware.Http.Requests
import NocoMiddleware.Store.TableWrites

/-!
# Requests of the data API

`DataController` behind `TablePermissionsGuard`: the guard with the lookups of
`PermissionsService`, the table lookup of `DataService` with its cache, and its methods on a
table that was found.  How NocoDB stores a JSON value is a parameter, and so is whether the
exception of a request reports invalid input.
-/

namespace NocoMiddleware
namespace Http

open NocoMiddleware.Js NocoMiddleware.Tables NocoMiddleware.Store NocoMiddleware.Permissions
open NocoMiddleware.Auth NocoMiddleware.Foundation NocoMiddleware.Data NocoMiddleware.Runs

/-! ## The routes -/

/-- `ListRecordsOptions`, with `where` as `filter`. -/
structure ListRecordsOptions where
  filter : Option JsString
  sort : Option JsString
  limit : Option Nat
  offset : Option Nat

/-- `RecordList`. -/
structure RecordList where
  list : List NocoRecord
  pageInfo : NocoPageInfo

/-- The routes under `data/:table`. -/
inductive DataRoute where
  | list (query : ListRecordsOptions)
  | read (id : JsNumber)
  | create (data : Option Json)
  | update (id : JsNumber) (data : Option Json)
  | delete (id : JsNumber)

namespace DataRoute

/-- The HTTP method of a route. -/
def method : DataRoute → JsString
  | list _ => js "GET"
  | read _ => js "GET"
  | create _ => js "POST"
  | update _ _ => js "PATCH"
  | delete _ => js "DELETE"

/-- The action that the user of a route needs. -/
def action : DataRoute → CrudAction
  | list _ => .read
  | read _ => .read
  | create _ => .create
  | update _ _ => .update
  | delete _ => .delete

/-- What a route answers. -/
@[reducible] def Result : DataRoute → Type
  | list _ => RecordList
  | read _ => NocoRecord
  | create _ => NocoRecord
  | update _ _ => NocoRecord
  | delete _ => Unit

/-- The check of a body, which comes before the table lookup. -/
def checkBody : DataRoute → Except Exception Unit
  | create data => assertRecordInput data
  | update _ data => assertRecordInput data
  | _ => .ok ()

end DataRoute

/-! ## The guard -/

section

variable (config : Config)

/-- `canActivate` of `TablePermissionsGuard`, with the lookup of `PermissionsService`. -/
def admitData (request : DataRequest) : Service Unit :=
  let table := request.table.getD []
  if !isValidTableName config.unicode table || systemTables.contains table then
    throw (tableNotFound table)
  else
    match methodAction (toUpperCase request.method), request.user with
    | some action, some user =>
        if user.userId.truthy then
          checkPermission config.tablePrefix ⟨user.userId, user.scope⟩ ⟨table, action⟩
        else throw (.forbidden (js "Access denied"))
    | _, _ => throw (.forbidden (js "Access denied"))

/-- What `TablePermissionsGuard` reads of a request. -/
def dataRequest (user : Option AuthenticatedUser) (table : JsString) (route : DataRoute) :
    DataRequest where
  method := route.method
  table := some table
  user := user.map fun user => ⟨.number user.userId, some user.scope⟩

/-- The guards of a request of the data API. -/
def enterData (token : Option TokenPayload) (table : JsString) (route : DataRoute) :
    Service Unit := do
  let user ← authenticate config false token
  admitData config (dataRequest user table route)

end

/-! ## The methods -/

/-- A program that may fail, with its exception as a result. -/
def attempt {Op : Type} {Res : Op → Type} {α : Type} (program : Program Op Res Exception α) :
    Program Op Res Exception (Except Exception α) :=
  tryCatch (do let result ← program; return .ok result) fun exception => return .error exception

/-- The lookup of `DataService.getTable`, which asks NocoDB for its tables where the cache has no
entry.  What it answers for the fields of a table is a parameter. -/
def lookupTable (tablePrefix : JsString)
    (getTableMetadata : JsString → Except Exception (List NocoFieldMeta)) (now later : Nat)
    (tables : TableCache) (table : JsString) : Service (Except Exception TableInfo × TableCache) :=
  match cachedInfo tables now table with
  | some cached => return (.ok cached, tables)
  | none => do
      let listTables ← attempt (Program.call Op.listTables : Service (List TableMeta))
      return getTable tablePrefix listTables getTableMetadata now later tables table

section

variable (stored : Json → JsValue) (rejects : Exception → Bool)

/-- The payload of a body. -/
def payloadOf (data : Option Json) : Payload :=
  (recordMembers data).map fun member => (member.1, stored member.2)

/-- `withUpstreamValidation`. -/
def validated {α : Type} (call : Paging α) (message : JsString) : Paging α :=
  tryCatch call fun exception =>
    if rejects exception then throw (.badRequest message) else throw exception

/-- `DEFAULT_PAGE_SIZE`. -/
def defaultPageSize : Nat := 25

/-- The methods of `DataService` on a table that was found. -/
def DataRoute.handle (table : JsString) (info : TableInfo) :
    (route : DataRoute) → Paging route.Result
  | .list query => do
      let offset := query.offset.getD 0
      let result ← validated rejects (listWith info.id
        { filter := query.filter
          sort := query.sort
          fields := none
          limit := some (query.limit.getD defaultPageSize)
          offset := some offset
          withCount := true }) (js "NocoDB rejected the query (where/sort)")
      return ⟨result.list, result.pageInfo.getD ⟨offset + result.list.length, none⟩⟩
  | .read id => do
      let record ← (Store.read info.id id).lift
      match record with
      | none =>
          throw (.notFound (js "Record " ++ id.text ++ js " not found in '" ++ table ++ js "'"))
      | some record => return record
  | .create data => do
      let _ ← Program.ofExcept (assertWritableFields info (recordMembers data))
      validated rejects (Store.create info.id (payloadOf stored data)).lift rejectedValues
  | .update id data => do
      let _ ← Program.ofExcept (assertWritableFields info (recordMembers data))
      validated rejects (Store.update info.id id (payloadOf stored data)).lift rejectedValues
  | .delete id => (Store.delete info.id id).lift

end

/-! ## Serving a request -/

/-- A request of the data API: what it is answered with, and the cache of tables after it. -/
def serveData (config : Config) (stored : Json → JsValue) (rejects : Exception → Bool)
    (token : Option TokenPayload) (table : JsString) (route : DataRoute)
    (getTableMetadata : JsString → Except Exception (List NocoFieldMeta)) (now later : Nat)
    (tables : TableCache) : Paging (Except Exception route.Result × TableCache) := do
  let entered ← attempt (enterData config token table route).lift
  match entered.bind fun _ => route.checkBody with
  | .error exception => return (.error exception, tables)
  | .ok _ =>
      let (info, tables) ← (lookupTable config.tablePrefix getTableMetadata now later tables
        table).lift
      match info with
      | .error exception => return (.error exception, tables)
      | .ok info =>
          let result ← attempt (route.handle stored rejects table info)
          return (result, tables)

/-! ## What the methods may change -/

theorem methodAction_method (route : DataRoute) :
    methodAction (toUpperCase route.method) = some route.action := by
  have hmethods : methodAction (toUpperCase (js "GET")) = some .read ∧
      methodAction (toUpperCase (js "POST")) = some .create ∧
      methodAction (toUpperCase (js "PATCH")) = some .update ∧
      methodAction (toUpperCase (js "DELETE")) = some .delete := by decide
  obtain ⟨hget, hpost, hpatch, hdelete⟩ := hmethods
  cases route with
  | list query => exact hget
  | read id => exact hget
  | create data => exact hpost
  | update id data => exact hpatch
  | delete id => exact hdelete

section

variable {order : SortOrder} {faults : Bool} {ids : JsString → Prop} {world : World}

theorem uses_validated {α : Type} {allowed : Op ⊕ PageOp → Prop} {rejects : Exception → Bool}
    {call : Paging α} {message : JsString} (h : call.Uses allowed) :
    (validated rejects call message).Uses allowed := by
  apply Program.Uses.tryCatch h
  intro exception
  split
  · trivial
  · trivial

/-- A method of the data API writes to the table of its entry at most, and does not write at all
if it needs no more than to read. -/
theorem uses_handleData {stored : Json → JsValue} {rejects : Exception → Bool} {table : JsString}
    {info : TableInfo} (route : DataRoute) :
    (route.handle stored rejects table info).Uses
      (WritesTo fun id => route.action ≠ .read ∧ id = info.id) := by
  cases route with
  | list query =>
      apply (uses_validated uses_listWith).bind
      intro result
      trivial
  | read id =>
      apply (Program.uses_call trivial).lift.bind
      intro record
      cases record with
      | none => trivial
      | some record => trivial
  | create data =>
      apply (Program.uses_ofExcept _).bind
      intro _
      apply uses_validated
      apply Program.Uses.lift
      exact Program.uses_call ⟨nofun, rfl⟩
  | update id data =>
      apply (Program.uses_ofExcept _).bind
      intro _
      apply uses_validated
      apply Program.Uses.lift
      exact Program.uses_call ⟨nofun, rfl⟩
  | delete id =>
      apply Program.Uses.lift
      exact Program.uses_call ⟨nofun, rfl⟩

end

end Http
end NocoMiddleware
