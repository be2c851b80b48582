import NocoMiddleware.Js.Value

/-!
# JSON values

A value as `JSON.parse` gives it: what a token payload or the body of a response can
hold.  Of the operations of the language this module has `??`, reading a property and
`String(value)`, which raises a type error for an object that hides `toString`.
-/

namespace NocoMiddleware
namespace Js

/-- A JSON value; the members of an object are in order. -/
inductive Json where
  | null
  | boolean (value : Bool)
  | number (value : JsNumber)
  | string (value : JsString)
  | array (entries : List Json)
  | object (members : List (JsString × Json))

namespace Json

/-- `value?.[key]`, for a key that no prototype has.  `none` is `undefined`. -/
def property (value : Option Json) (key : JsString) : Option Json :=
  match value with
  | some (object members) => members.lookup key
  | _ => none

/-- `value ?? other`. -/
def orElse (value other : Option Json) : Option Json :=
  match value with
  | none => other
  | some null => other
  | some present => some present

mutual

/-- `String(value)`; `none` is a type error. -/
def toText : Json → Option JsString
  | null => some (js "null")
  | boolean value => some (if value then js "true" else js "false")
  | number value => some value.text
  | string value => some value
  | array entries => (entryTexts entries).map (js ",").intercalate
  | object members =>
      -- no JSON value can be called, so an own `toString` leaves nothing to convert with
      if members.any (fun entry => entry.1 = js "toString") then none
      else some (js "[object Object]")

/-- The texts that the conversion of an array joins. -/
def entryTexts : List Json → Option (List JsString)
  | [] => some []
  | entry :: entries =>
      match entryTexts entries with
      | none => none
      | some texts =>
          match entry with
          | null => some ([] :: texts)
          | entry => (toText entry).map (· :: texts)

end

example : toText (.array [.string (js "a"), .null, .number (.ofNat 12)]) = some (js "a,,12") := by
  decide
example : toText (.object [(js "toString", .null)]) = none := by decide

end Json

end Js
end NocoMiddleware
