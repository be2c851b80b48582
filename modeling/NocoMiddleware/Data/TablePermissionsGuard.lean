import NocoMiddleware.Exception
import NocoMiddleware.Permissions.CrudAction
import NocoMiddleware.Tables.Resolution

/-!
# The guard of the data API

`TablePermissionsGuard.canActivate`: which data API requests are let through.
-/

namespace NocoMiddleware
namespace Data

open Js Tables Permissions

/-- The user of a request. -/
structure DataUser where
  userId : JsValue
  scope : Option (List JsString)
  deriving DecidableEq

/-- `DataRequest`. -/
structure DataRequest where
  method : JsString
  table : Option JsString
  user : Option DataUser
  deriving DecidableEq

/-- `String.prototype.toUpperCase` on a request method, an ASCII token. -/
def toUpperCase (text : JsString) : JsString :=
  text.map fun unit => if 97 ≤ unit.toNat ∧ unit.toNat ≤ 122 then unit - 32 else unit

/-- `METHOD_ACTIONS`. -/
def methodAction (method : JsString) : Option CrudAction :=
  if method = js "GET" then some .read
  else if method = js "POST" then some .create
  else if method = js "PATCH" then some .update
  else if method = js "DELETE" then some .delete
  else none

/-- `SYSTEM_TABLES`. -/
def systemTables : List JsString :=
  SystemTable.all.map SystemTable.name

section

variable (unicode : UnicodeClasses)

/-- `canActivate`.  The permission lookup is a parameter: any answer of
`canUserPerformAction`, an exception included. -/
def canActivate (canUserPerformAction : JsNumber → JsString → CrudAction → Except Exception Bool)
    (request : DataRequest) : Except Exception Bool :=
  let table := request.table.getD []
  if !isValidTableName unicode table || systemTables.contains table then
    .error (.notFound (js "Table '" ++ table ++ js "' not found"))
  else
    match methodAction (toUpperCase request.method), request.user with
    | some action, some user =>
        if user.userId.truthy then do
          let allowed ←
            if hasScopePermission user.scope table action then pure true
            else canUserPerformAction user.userId.toNumber table action
          if allowed then pure true
          else .error (.forbidden
            (js "Missing permission: " ++ action.text ++ js " on " ++ table))
        else .error (.forbidden (js "Access denied"))
    | _, _ => .error (.forbidden (js "Access denied"))

variable {unicode}

/-- A request that is let through names a valid table that is no system table. -/
theorem canActivate_table {perform : JsNumber → JsString → CrudAction → Except Exception Bool}
    {request : DataRequest} (h : canActivate unicode perform request = .ok true) :
    isValidTableName unicode (request.table.getD []) = true ∧
      ∀ table : SystemTable, table.name ≠ request.table.getD [] := by
  by_cases hname : (!isValidTableName unicode (request.table.getD []) ||
      systemTables.contains (request.table.getD [])) = true
  · simp only [canActivate, hname, if_true] at h
    contradiction
  · simp only [Bool.not_eq_true, Bool.or_eq_false_iff, Bool.not_eq_false'] at hname
    refine ⟨hname.1, fun table htable => ?_⟩
    have hmem : request.table.getD [] ∈ systemTables :=
      List.mem_map.mpr ⟨table, table.mem_all, htable⟩
    simp [hmem] at hname

/-- A wildcard scope lets a user read every valid table that is no system table. -/
theorem canActivate_wildcard {name : JsString} (hvalid : isValidTableName unicode name = true)
    (hsystem : ∀ table : SystemTable, table.name ≠ name)
    (perform : JsNumber → JsString → CrudAction → Except Exception Bool) :
    canActivate unicode perform
      ⟨js "GET", some name, some ⟨.number (.ofNat 1), some [js "*:*"]⟩⟩ = .ok true := by
  have hcontains : name ∉ systemTables := by
    intro hmem
    obtain ⟨table, -, htable⟩ := List.mem_map.mp hmem
    exact hsystem table htable
  have hmethod : methodAction (toUpperCase (js "GET")) = some .read := by decide
  have htruthy : (JsValue.number (.ofNat 1)).truthy = true := by decide
  simp [canActivate, hvalid, hcontains, hmethod, htruthy, hasScopePermission, bind, Except.bind,
    pure, Except.pure]

end

end Data
end NocoMiddleware
