import NocoMiddleware.Auth.ClaimEncodings
import NocoMiddleware.Data.TableCatalog
import NocoMiddleware.Http.AdminPages
import NocoMiddleware.Runs.AccountCalls

/-!
# Requests of the HTTP API

The routes of the controllers with their decorators, and how a request is served: by
`JwtAuthGuard`, by the guard of the controller and by the method that the route calls.  Bodies
and parameters come as the validation passes them on; the data API has its own module.
-/

namespace NocoMiddleware
namespace Http

open NocoMiddleware.Js NocoMiddleware.Tables NocoMiddleware.Store NocoMiddleware.Permissions
open NocoMiddleware.Users NocoMiddleware.Roles NocoMiddleware.Auth NocoMiddleware.Foundation
open NocoMiddleware.Data

/-- The settings that requests depend on. -/
structure Config where
  tablePrefix : JsString
  unicode : UnicodeClasses
  provider : AuthProvider
  /-- `BOOTSTRAP_ADMIN_TOKEN`. -/
  bootstrapToken : Option JsString

/-! ## Decorators -/

/-- `RequireCreate`. -/
def requireCreate (table : SystemTable) : Option (List RequiredPermission) :=
  some [⟨table.name, .create⟩]

/-- `RequireRead`. -/
def requireRead (table : SystemTable) : Option (List RequiredPermission) :=
  some [⟨table.name, .read⟩]

/-- `RequireDelete`. -/
def requireDelete (table : SystemTable) : Option (List RequiredPermission) :=
  some [⟨table.name, .delete⟩]

/-! ## `PermissionsManagementController` -/

/-- The routes under `admin/permissions`. -/
inductive AdminRoute where
  | createRole (createRoleDto : CreateRoleDto)
  | getAllRoles (pageOptionsDto : PageOptionsDto)
  | deleteRole (roleId : JsNumber)
  | setTablePermissions (dto : SetTablePermissionsDto)
  | batchSetPermissions (dto : BatchSetPermissionsDto)
  | getRolePermissions (roleId : JsNumber) (pageOptionsDto : PageOptionsDto)
  | deleteRolePermissions (roleId : JsNumber)
  | copyPermissions (sourceRoleId targetRoleId : JsNumber)
  | assignRole (dto : AssignRoleDto)
  | assignMultipleRoles (dto : AssignMultipleRolesDto)
  | removeRole (userId roleId : JsNumber)
  | getUserRoles (userId : JsNumber) (pageOptionsDto : PageOptionsDto)

namespace AdminRoute

/-- The permissions that the decorator of a route requires. -/
def required : AdminRoute → Option (List RequiredPermission)
  | createRole _ => requireCreate .roles
  | getAllRoles _ => requireRead .roles
  | deleteRole _ => requireDelete .roles
  | setTablePermissions _ => requireCreate .tablePermissions
  | batchSetPermissions _ => requireCreate .tablePermissions
  | getRolePermissions _ _ => requireRead .tablePermissions
  | deleteRolePermissions _ => requireDelete .tablePermissions
  | copyPermissions _ _ => requireCreate .tablePermissions
  | assignRole _ => requireCreate .userRoles
  | assignMultipleRoles _ => requireCreate .userRoles
  | removeRole _ _ => requireDelete .userRoles
  | getUserRoles _ _ => requireRead .userRoles

/-- What a route answers. -/
@[reducible] def Result : AdminRoute → Type
  | createRole _ => NocoRecord
  | getAllRoles _ => PageDto NocoRecord
  | deleteRole _ => Unit
  | setTablePermissions _ => NocoRecord
  | batchSetPermissions _ => BatchSetResult
  | getRolePermissions _ _ => PageDto NocoRecord
  | deleteRolePermissions _ => Unit
  | copyPermissions _ _ => CopyResult
  | assignRole _ => NocoRecord
  | assignMultipleRoles _ => AssignedRoles
  | removeRole _ _ => Unit
  | getUserRoles _ _ => PageDto NocoRecord

/-- The method that a route calls. -/
def handle (tablePrefix : JsString) : (route : AdminRoute) → Paging route.Result
  | createRole createRoleDto => (Roles.createRole tablePrefix createRoleDto).lift
  | getAllRoles pageOptionsDto => Http.getAllRoles tablePrefix (some pageOptionsDto)
  | deleteRole roleId => (Roles.deleteRole tablePrefix roleId).lift
  | setTablePermissions dto => (Permissions.setTablePermissions tablePrefix dto).lift
  | batchSetPermissions dto => (Permissions.batchSetPermissions tablePrefix dto).lift
  | getRolePermissions roleId pageOptionsDto =>
      Http.getRolePermissions tablePrefix roleId (some pageOptionsDto)
  | deleteRolePermissions roleId => (Permissions.deleteRolePermissions tablePrefix roleId).lift
  | copyPermissions sourceRoleId targetRoleId =>
      (Permissions.copyPermissions tablePrefix sourceRoleId targetRoleId).lift
  | assignRole dto => (Users.assignRole tablePrefix dto).lift
  | assignMultipleRoles dto => (Users.assignMultipleRoles tablePrefix dto).lift
  | removeRole userId roleId => (Users.removeRole tablePrefix userId roleId).lift
  | getUserRoles userId pageOptionsDto =>
      Users.getUserRoles tablePrefix userId (some pageOptionsDto)

end AdminRoute

/-! ## All routes -/

/-- The routes that do not belong to the data API. -/
inductive Route where
  | admin (route : AdminRoute)
  | createUser (dto : ProvisionUserDto)
  | updateStatus (id : JsNumber) (isActive : Bool)
  | listTables
  | bootstrapAdmin (dto : BootstrapAdminDto) (bootstrapToken : Option JsString)

/-- What a route answers. -/
@[reducible] def Route.Result : Route → Type
  | .admin route => route.Result
  | .createUser _ => ResolvedIdentity
  | .updateStatus _ _ => ResolvedIdentity
  | .listTables => List TableCatalogItem
  | .bootstrapAdmin _ _ => BootstrappedAdmin

/-- `@Public()`. -/
def Route.isPublic : Route → Bool
  | .bootstrapAdmin _ _ => true
  | _ => false

/-- `@Roles(...)`. -/
def Route.roles : Route → Option (List JsString)
  | .createUser _ => some [js "admin"]
  | .updateStatus _ _ => some [js "admin"]
  | .listTables => some [js "admin"]
  | _ => none

/-! ## Serving a request -/

/-- The exception for a request without a token that the library accepts. -/
def unauthorizedRequest : Exception :=
  .unauthorized (js "Unauthorized")

/-- The exception for a guard that answers `false`. -/
def forbiddenResource : Exception :=
  .forbidden (js "Forbidden resource")

/-- What `PermissionsGuard` reads of the user of a request. -/
def requestUser (user : AuthenticatedUser) : RequestUser :=
  ⟨.number user.userId, some user.scope⟩

section

variable (config : Config)

/-- `JwtAuthGuard`: the user of the token, whose signature and expiry the library has checked.  A
public route has no user. -/
def authenticate (isPublic : Bool) (token : Option TokenPayload) :
    Service (Option AuthenticatedUser) :=
  if isPublic then return none
  else
    match token with
    | none => throw unauthorizedRequest
    | some payload => do
        let user ← validate config.tablePrefix config.provider payload
        return some user

/-- The answer of a guard. -/
def require (admitted : Bool) : Service Unit :=
  if admitted then return () else throw forbiddenResource

/-- The guard of the controller. -/
def Route.authorize (route : Route) (user : Option AuthenticatedUser) : Service Unit :=
  match route with
  | .admin route => do
      let admitted ← canActivate config.tablePrefix route.required none (user.map requestUser)
      require admitted
  | .bootstrapAdmin _ _ => return ()
  | route => require (rolesGuardCanActivate route.roles (user.map AuthenticatedUser.roles))

/-- The method that a route calls. -/
def Route.handle : (route : Route) → Paging route.Result
  | .admin route => route.handle config.tablePrefix
  | .createUser dto => (createLocalUser config.tablePrefix dto).lift
  | .updateStatus id isActive => (setUserStatus config.tablePrefix id isActive).lift
  | .listTables => do
      let tables ← (Program.call Op.listTables : Service (List TableMeta)).lift
      return listExternalTables config.unicode config.tablePrefix (tables.map tableJson)
  | .bootstrapAdmin dto bootstrapToken =>
      (Auth.bootstrapAdmin config.tablePrefix config.bootstrapToken dto bootstrapToken).lift

/-- A request, from the guards to the answer. -/
def serve (token : Option TokenPayload) (route : Route) : Paging route.Result := do
  let user ← (authenticate config route.isPublic token).lift
  (route.authorize config user).lift
  route.handle config

end

end Http
end NocoMiddleware
