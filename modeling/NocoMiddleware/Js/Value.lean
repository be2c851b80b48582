import NocoMiddleware.Js.Double

/-!
# JavaScript values of record cells

A cell of a NocoDB record holds a JSON scalar or nothing.  This module gives
the conversions of the language that the services apply to cells:
`Number(value)` and the truth value of a value.
-/

namespace NocoMiddleware
namespace Js

/-- A scalar value. -/
inductive JsValue where
  | undefined
  | null
  | boolean (value : Bool)
  | number (value : JsNumber)
  | string (value : JsString)
  deriving DecidableEq

/-- A scalar of a JSON document: what a cell of a record can hold. -/
inductive JsonScalar where
  | null
  | boolean (value : Bool)
  | number (value : Decimal)
  | string (value : JsString)
  deriving DecidableEq

/-- The value that a JSON scalar is parsed to. -/
def JsonScalar.toValue : JsonScalar → JsValue
  | null => .null
  | boolean value => .boolean value
  | number value => .number (.finite value)
  | string value => .string value

/-- The JSON scalar that a property value is written as.  A property that is
`undefined` is left out, a number that is not finite becomes `null`. -/
def JsValue.toJson : JsValue → Option JsonScalar
  | undefined => none
  | null => some .null
  | boolean value => some (.boolean value)
  | number (.finite value) => some (.number value)
  | number _ => some .null
  | string value => some (.string value)

theorem JsonScalar.toJson_toValue (cell : JsonScalar) : cell.toValue.toJson = some cell := by
  cases cell <;> rfl

/-- The value of a digit in a radix up to 16. -/
def radixDigit (radix : Nat) (unit : CodeUnit) : Option Nat :=
  let code := unit.toNat
  let digit :=
    if 48 ≤ code ∧ code ≤ 57 then code - 48
    else if 65 ≤ code ∧ code ≤ 70 then code - 55
    else if 97 ≤ code ∧ code ≤ 102 then code - 87
    else 16
  if digit < radix then some digit else none

/-- The number that digits of a radix spell; at least one digit is needed. -/
def readRadix (radix : Nat) (digits : JsString) : JsNumber :=
  match digits.mapM (radixDigit radix) with
  | some (digit :: rest) =>
      (Decimal.ofNat (Nat.ofDigits radix (digit :: rest).reverse)).toDouble
  | _ => .nan

/-- `Number(text)`. -/
def stringToNumber (text : JsString) : JsNumber :=
  let body := trim text
  if body = [] then .ofNat 0
  else if body = js "Infinity" ∨ body = js "+Infinity" then .infinity false
  else if body = js "-Infinity" then .infinity true
  else
    match readNumeral body with
    | some x => x.toDouble
    | none =>
        if body.take 2 = js "0x" ∨ body.take 2 = js "0X" then readRadix 16 (body.drop 2)
        else if body.take 2 = js "0o" ∨ body.take 2 = js "0O" then readRadix 8 (body.drop 2)
        else if body.take 2 = js "0b" ∨ body.take 2 = js "0B" then readRadix 2 (body.drop 2)
        else .nan

theorem isDouble_readRadix (radix : Nat) (digits : JsString) :
    (readRadix radix digits).IsDouble := by
  unfold readRadix
  split
  · exact isDouble_toDouble _
  · trivial

/-- A text is converted to a number that a double can hold. -/
theorem isDouble_stringToNumber (text : JsString) : (stringToNumber text).IsDouble := by
  unfold stringToNumber
  dsimp only
  by_cases hempty : trim text = []
  · rw [if_pos hempty]
    decide
  rw [if_neg hempty]
  split
  · trivial
  split
  · trivial
  split
  · exact isDouble_toDouble _
  · split
    · exact isDouble_readRadix 16 _
    split
    · exact isDouble_readRadix 8 _
    split
    · exact isDouble_readRadix 2 _
    · trivial

namespace JsValue

/-- `Number(value)`. -/
def toNumber : JsValue → JsNumber
  | undefined => .nan
  | null => .ofNat 0
  | boolean value => .ofNat (if value then 1 else 0)
  | number value => value
  | string value => stringToNumber value

/-- `Boolean(value)`. -/
def truthy : JsValue → Bool
  | undefined => false
  | null => false
  | boolean value => value
  | number value => value.truthy
  | string value => value ≠ []

/-- `String(value)`. -/
def toText : JsValue → JsString
  | undefined => js "undefined"
  | null => js "null"
  | boolean value => if value then js "true" else js "false"
  | number value => value.text
  | string value => value

/-- `value ?? other`. -/
def orElse (value other : JsValue) : JsValue :=
  match value with
  | undefined => other
  | null => other
  | present => present

@[simp] theorem toNumber_number (value : JsNumber) : (number value).toNumber = value := rfl

@[simp] theorem truthy_boolean (value : Bool) : (boolean value).truthy = value := rfl

end JsValue

example : (JsValue.string (js " 12 ")).toNumber = .ofNat 12 := by decide +kernel
example : (JsValue.string (js "0x1F")).toNumber = .ofNat 31 := by decide +kernel
example : (JsValue.string (js "12a")).toNumber = .nan := by decide

end Js
end NocoMiddleware
