import NocoMiddleware.Store.Changes

/-!
# `PermissionsService`

`getUserPermissions` with its cache, and `canUserPerformAction`.  The method is
split at its lookups: `loadUserPermissions` is what follows a cache miss, and each
of `loadUserRoles`, `loadRoles` and `loadTablePermissions` is what follows one more
lookup.  `aggregatePermissions` is the loop at the end.
-/

namespace NocoMiddleware
namespace Permissions

open NocoMiddleware.Js NocoMiddleware.Filter NocoMiddleware.Tables NocoMiddleware.Store
open NocoMiddleware.Foundation

/-- The checkbox field of `table_permissions` that grants an action. -/
def CrudAction.flag : CrudAction → JsString
  | create => js "can_create"
  | read => js "can_read"
  | update => js "can_update"
  | delete => js "can_delete"

/-- `createEmptyPermissions`. -/
def createEmptyPermissions (userId : JsNumber) (username : JsValue) : UserPermissions where
  userId := userId
  username := username
  roles := []
  permissions := .empty

/-- The distinct positive integers among the role ids of assignments. -/
def assignedRoleIds (userRoles : List NocoRecord) : List JsNumber :=
  ((userRoles.map fun ur => (ur.get (js "role_id")).toNumber).filter fun id =>
    id.isInteger && id.isPositive).eraseDups

/-- The actions that a permission record grants, added to a set. -/
def addActions (perm : NocoRecord) (actions : ActionSet) : ActionSet :=
  [CrudAction.create, .read, .update, .delete].foldl
    (fun actions action =>
      if (perm.get action.flag).truthy then actions.add action else actions) actions

/-- One round of the aggregation loop. -/
def addPermission (existingRoleIds : List JsNumber)
    (permissionsMap : OrderedMap JsValue ActionSet) (perm : NocoRecord) :
    OrderedMap JsValue ActionSet :=
  let tableName := perm.get (js "table_name")
  if !tableName.truthy || !existingRoleIds.contains (perm.get (js "role_id")).toNumber then
    permissionsMap
  else
    permissionsMap.set tableName (addActions perm ((permissionsMap.get tableName).getD []))

/-- The aggregation loop: the actions of all usable permission records by table. -/
def aggregatePermissions (existingRoleIds : List JsNumber)
    (permissionRecords : List NocoRecord) : OrderedMap JsValue ActionSet :=
  permissionRecords.foldl (addPermission existingRoleIds) .empty

section

variable (tablePrefix : JsString)

/-- The last part of `getUserPermissions`: the permission records of the active
roles are read, aggregated and cached. -/
def loadTablePermissions (userId : JsNumber) (username : JsValue) (roleNames : List JsValue)
    (existingRoleIds activeRoleIds : List JsNumber) : Service UserPermissions := do
  let permissionsTable ← getTableByName tablePrefix SystemTable.tablePermissions.name
  match permissionsTable with
  | none => return createEmptyPermissions userId username
  | some permissionsTable =>
      let filter ← Program.ofExcept
        (filterIn (js "role_id") (activeRoleIds.map FilterValue.number))
      let permissionRecords ← listAll permissionsTable.id filter none
      let userPermissions : UserPermissions :=
        { userId := userId
          username := username
          roles := roleNames.filter JsValue.truthy
          permissions := aggregatePermissions existingRoleIds permissionRecords }
      Program.call (Op.cachePermissions userId userPermissions)
      return userPermissions

/-- The part of `getUserPermissions` that keeps the roles that still exist. -/
def loadRoles (userId : JsNumber) (username : JsValue) (roleIds : List JsNumber) :
    Service UserPermissions := do
  let rolesTable ← getTableByName tablePrefix SystemTable.roles.name
  match rolesTable with
  | none => return createEmptyPermissions userId username
  | some rolesTable =>
      let filter ← Program.ofExcept (filterIn (js "id") (roleIds.map FilterValue.number))
      let roles ← listAll rolesTable.id filter none
      let roleNames := roles.map fun r : NocoRecord =>
        (r.get (js "role_name")).orElse (.string [])
      let existingRoleIds := roles.map fun r : NocoRecord => (r.get (js "id")).toNumber
      let activeRoleIds := roleIds.filter fun id => existingRoleIds.contains id
      if activeRoleIds = [] then return createEmptyPermissions userId username
      else loadTablePermissions tablePrefix userId username roleNames existingRoleIds activeRoleIds

/-- The part of `getUserPermissions` that reads the assignments of the user. -/
def loadUserRoles (userId : JsNumber) (username : JsValue) : Service UserPermissions := do
  let userRolesTable ← getTableByName tablePrefix SystemTable.userRoles.name
  match userRolesTable with
  | none => return createEmptyPermissions userId username
  | some userRolesTable =>
      let filter ← Program.ofExcept (filterEq (js "user_id") (.number userId))
      let userRoles ← listAll userRolesTable.id filter (some [js "role_id"])
      let roleIds := assignedRoleIds userRoles
      if roleIds = [] then return createEmptyPermissions userId username
      else loadRoles tablePrefix userId username roleIds

/-- The part of `getUserPermissions` after a cache miss. -/
def loadUserPermissions (userId : JsNumber) : Service UserPermissions := do
  let usersTable ← getTableByName tablePrefix SystemTable.users.name
  match usersTable with
  | none => return createEmptyPermissions userId (.string (js "unknown"))
  | some usersTable =>
      let user ← Store.read usersTable.id userId
      let username :=
        ((user.map fun record : NocoRecord => record.get (js "username")).getD
          .undefined).orElse (.string (js "unknown"))
      loadUserRoles tablePrefix userId username

/-- `getUserPermissions`. -/
def getUserPermissions (userId : JsNumber) : Service UserPermissions := do
  let cached : Option UserPermissions ← Program.call (Op.cacheGet userId)
  match cached with
  | some value => return value
  | none => loadUserPermissions tablePrefix userId

/-- `canUserPerformAction`. -/
def canUserPerformAction (userId : JsNumber) (tableName : JsString) (action : CrudAction) :
    Service Bool := do
  let userPermissions ← getUserPermissions tablePrefix userId
  return userPermissions.allows tableName action

end

end Permissions
end NocoMiddleware
