import NocoMiddleware.Js.Value

/-!
# Actions and scopes

The CRUD actions that permissions speak about, and the OAuth scopes that grant
them without a permission lookup (`scope-permission.util.ts`).
-/

namespace NocoMiddleware
namespace Permissions

open Js

/-- `CrudAction`. -/
inductive CrudAction where
  | create
  | read
  | update
  | delete
  deriving DecidableEq

namespace CrudAction

/-- The string value of an action. -/
def text : CrudAction → JsString
  | create => js "create"
  | read => js "read"
  | update => js "update"
  | delete => js "delete"

end CrudAction

/-- `hasScopePermission`.  `none` is a scope claim that is no array. -/
def hasScopePermission (scope : Option (List JsString)) (table : JsString)
    (action : CrudAction) : Bool :=
  match scope with
  | none => false
  | some entries =>
      entries ≠ [] &&
        (entries.contains (table ++ js ":" ++ action.text) ||
          entries.contains (table ++ js ":*") ||
          entries.contains (js "*:" ++ action.text) ||
          entries.contains (js "*:*"))

/-- The four entries that grant an action on a table. -/
theorem hasScopePermission_iff (entries : List JsString) (table : JsString)
    (action : CrudAction) :
    hasScopePermission (some entries) table action = true ↔
      table ++ js ":" ++ action.text ∈ entries ∨ table ++ js ":*" ∈ entries ∨
        js "*:" ++ action.text ∈ entries ∨ js "*:*" ∈ entries := by
  cases entries with
  | nil => simp [hasScopePermission]
  | cons first rest => simp [hasScopePermission, or_assoc]

end Permissions
end NocoMiddleware
