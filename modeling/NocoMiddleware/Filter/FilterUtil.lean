import NocoMiddleware.Exception
import NocoMiddleware.Foundation.Fallible
import NocoMiddleware.Foundation.Pattern
import NocoMiddleware.Js.Value

/-!
# The filter builders of `nocodb-filter.util.ts`

`filterEq`, `filterIn`, `filterChecked` and `filterNotChecked` build one
comparison each, `andFilters` checks comparisons against
`FILTER_EXPRESSION_PATTERN` and joins them.  None of the two regular expressions
has the `u` flag, so they are patterns over code units.
-/

namespace NocoMiddleware
namespace Filter

open Js Foundation

/-- `FilterValue`. -/
inductive FilterValue where
  | string (value : JsString)
  | number (value : JsNumber)
  | boolean (value : Bool)
  deriving DecidableEq

/-! ## The patterns -/

/-- `[A-Za-z0-9_-]` -/
def isFieldUnit (unit : CodeUnit) : Bool :=
  let code := unit.toNat
  (65 ≤ code && code ≤ 90) || (97 ≤ code && code ≤ 122) || isDigit unit ||
    code = 95 || code = 45

/-- `/^[A-Za-z0-9_-]+$/` -/
def filterFieldPattern : Pattern CodeUnit :=
  .oneOrMore (.symbol isFieldUnit)

/-- `"[^"]*"` -/
def quotedPattern : Pattern CodeUnit :=
  .andThen (.symbol fun unit => unit = quotationMark)
    (.andThen (.many (.symbol fun unit => unit ≠ quotationMark))
      (.symbol fun unit => unit = quotationMark))

/-- `-?\d+(?:\.\d+)?` -/
def numeralPattern : Pattern CodeUnit :=
  .andThen (.optional (.literal (js "-")))
    (.andThen (.oneOrMore (.symbol isDigit))
      (.optional (.andThen (.literal (js ".")) (.oneOrMore (.symbol isDigit)))))

/-- `"[^"]*"|-?\d+(?:\.\d+)?` -/
def filterValuePattern : Pattern CodeUnit :=
  .either quotedPattern numeralPattern

/-- `(?:eq|in),V(?:,V)*|checked|notchecked` for the value pattern `V`. -/
def filterConditionPattern : Pattern CodeUnit :=
  .either
    (.andThen (.either (.literal (js "eq")) (.literal (js "in")))
      (.andThen (.literal (js ","))
        (.andThen filterValuePattern
          (.many (.andThen (.literal (js ",")) filterValuePattern)))))
    (.either (.literal (js "checked")) (.literal (js "notchecked")))

/-- `/^\([A-Za-z0-9_-]+,(?:C)\)$/` for the condition pattern `C`. -/
def filterExpressionPattern : Pattern CodeUnit :=
  .andThen (.literal (js "("))
    (.andThen (.oneOrMore (.symbol isFieldUnit))
      (.andThen (.literal (js ","))
        (.andThen filterConditionPattern (.literal (js ")")))))

/-! ## The builders -/

/-- `PRIMARY_KEY_FIELD`. -/
def primaryKeyField : JsString := js "Id"

/-- The field title that a filter on `field` compares. -/
def fieldTitle (field : JsString) : JsString :=
  if field = js "id" then primaryKeyField else field

/-- `sanitizeFilterField`. -/
def sanitizeFilterField (field : JsString) : Except Exception JsString :=
  if filterFieldPattern.test field then .ok (fieldTitle field)
  else .error (.badRequest (js "Invalid filter field"))

/-- The first code unit of each character of a string, in the order of the
string iterator. -/
def leadUnits : JsString → JsString
  | [] => []
  | [unit] => [unit]
  | first :: second :: rest =>
      if isHighSurrogate first && isLowSurrogate second then first :: leadUnits rest
      else first :: leadUnits (second :: rest)

/-- `hasControlCharacter`. -/
def hasControlCharacter (value : JsString) : Bool :=
  (leadUnits value).any fun code => code < 32 || code = 127

/-- `formatFilterValue`. -/
def formatFilterValue : FilterValue → Except Exception JsString
  | .number (.finite x) => .ok x.text
  | .number _ => .error (.badRequest (js "Invalid numeric filter value"))
  | .boolean _ =>
      .error (.badRequest (js "Boolean filter values are only supported with filterEq"))
  | .string value =>
      let normalized := trim value
      if normalized = [] ∨ quotationMark ∈ normalized ∨ hasControlCharacter normalized then
        .error (.badRequest (js "Invalid filter value"))
      else .ok (quotationMark :: normalized ++ [quotationMark])

/-- `filterChecked`. -/
def filterChecked (field : JsString) : Except Exception JsString := do
  let title ← sanitizeFilterField field
  return js "(" ++ title ++ js ",checked)"

/-- `filterNotChecked`. -/
def filterNotChecked (field : JsString) : Except Exception JsString := do
  let title ← sanitizeFilterField field
  return js "(" ++ title ++ js ",notchecked)"

/-- `filterEq`. -/
def filterEq (field : JsString) : FilterValue → Except Exception JsString
  | .boolean value => if value then filterChecked field else filterNotChecked field
  | value => do
      let title ← sanitizeFilterField field
      let formatted ← formatFilterValue value
      return js "(" ++ title ++ js ",eq," ++ formatted ++ js ")"

/-- `filterIn`. -/
def filterIn (field : JsString) (values : List FilterValue) : Except Exception JsString :=
  if values = [] then .error (.badRequest (js "Filter values must not be empty"))
  else do
    let title ← sanitizeFilterField field
    let formatted ← values.mapM formatFilterValue
    return js "(" ++ title ++ js ",in," ++ (js ",").intercalate formatted ++ js ")"

/-- `andFilters`. -/
def andFilters (filters : List JsString) : Except Exception JsString :=
  if filters.all filterExpressionPattern.test then .ok ((js "~and").intercalate filters)
  else .error (.badRequest (js "Invalid filter expression"))

/-! ## Exceptions -/

section

variable {field : JsString} {exception : Exception}

theorem badRequest_of_sanitizeFilterField (h : sanitizeFilterField field = .error exception) :
    ∃ message, exception = .badRequest message := by
  unfold sanitizeFilterField at h
  split at h
  · contradiction
  · exact ⟨_, (Except.error.inj h).symm⟩

theorem badRequest_of_formatFilterValue {value : FilterValue}
    (h : formatFilterValue value = .error exception) :
    ∃ message, exception = .badRequest message := by
  unfold formatFilterValue at h
  split at h
  · contradiction
  · exact ⟨_, (Except.error.inj h).symm⟩
  · exact ⟨_, (Except.error.inj h).symm⟩
  · dsimp only at h
    split at h
    · exact ⟨_, (Except.error.inj h).symm⟩
    · contradiction

/-- What `filterEq` throws is a `BadRequestException`. -/
theorem badRequest_of_filterEq {value : FilterValue} (h : filterEq field value = .error exception) :
    ∃ message, exception = .badRequest message := by
  -- a builder fails at its field, or at its value
  have hfield : ∀ {rest : JsString → Except Exception JsString},
      (sanitizeFilterField field >>= rest) = .error exception →
        (∀ title, rest title = .error exception → ∃ message, exception = .badRequest message) →
        ∃ message, exception = .badRequest message := by
    intro rest herror hrest
    rcases bind_eq_error.mp herror with herror | ⟨title, -, herror⟩
    · exact badRequest_of_sanitizeFilterField herror
    · exact hrest title herror
  have hvalue : ∀ {value : FilterValue} {title : JsString},
      (do
        let formatted ← formatFilterValue value
        return js "(" ++ title ++ js ",eq," ++ formatted ++ js ")" : Except Exception JsString) =
          .error exception → ∃ message, exception = .badRequest message := by
    intro value title herror
    rcases bind_eq_error.mp herror with herror | ⟨formatted, -, herror⟩
    · exact badRequest_of_formatFilterValue herror
    · contradiction
  cases value with
  | string text => exact hfield h fun title => hvalue
  | number number => exact hfield h fun title => hvalue
  | boolean flag =>
      cases flag with
      | true => exact hfield h (by nofun)
      | false => exact hfield h (by nofun)

theorem badRequest_of_andFilters {filters : List JsString}
    (h : andFilters filters = .error exception) :
    ∃ message, exception = .badRequest message := by
  unfold andFilters at h
  split at h
  · contradiction
  · exact ⟨_, (Except.error.inj h).symm⟩

end

example : filterEq (js "name") (.string (js " o'b, (x)~or(id ")) =
    .ok (js "(name,eq,\"o'b, (x)~or(id\")") := by decide

end Filter
end NocoMiddleware
