import NocoMiddleware.Filter.FilterCall

/-!
# Joining builder results

What `andFilters` does with the results of builder calls: when it accepts them,
the joined text has exactly one reading, the conjunction of what the calls ask
for; and it accepts them exactly when no number in them is written with an
exponent.
-/

namespace NocoMiddleware
namespace Filter

open Js Foundation

/-- A list of filters is accepted when each is the text of an accepted
comparison, and is then joined. -/
theorem andFilters_eq_ok_iff (filters : List JsString) (text : JsString) :
    andFilters filters = .ok text ↔
      (∀ filter ∈ filters, filter ∈ filterExpressionPattern.language) ∧
        (js "~and").intercalate filters = text := by
  have hall : filters.all filterExpressionPattern.test = true ↔
      ∀ filter ∈ filters, filter ∈ filterExpressionPattern.language := by
    simp only [List.all_eq_true, Pattern.test_iff]
  rw [← hall]
  unfold andFilters
  split
  · next htest => simp [htest]
  · next htest => simp [htest]

/-- The written comparison is accepted by the validating pattern exactly when it
is an accepted comparison. -/
theorem text_mem_filterExpressionPattern (comparison : Comparison) :
    comparison.text ∈ filterExpressionPattern.language ↔ comparison.Accepted := by
  rw [mem_filterExpressionPattern]
  constructor
  · rintro ⟨other, haccepted, htext⟩
    rwa [← Comparison.text_injective htext]
  · exact fun haccepted => ⟨comparison, haccepted, rfl⟩

/-- Whatever strings, numbers and booleans the builders are called with, the
text that `andFilters` makes of their results reads as the conjunction of the
requested conditions, and as nothing else. -/
theorem andFilters_reads_back (calls : List FilterCall) (filters : List JsString)
    (text : JsString) (hbuilt : calls.mapM FilterCall.run = .ok filters)
    (haccepted : andFilters filters = .ok text) :
    ∃ expression : Where, parseWhere text = some expression ∧
      expression.comparisons.map Comparison.condition = calls.map FilterCall.requested ∧
      (∀ joiner ∈ expression.joiners, joiner = .and) ∧
      ∀ other : Where, other.text = text → other = expression := by
  obtain ⟨comparisons, rfl, hconditions, -⟩ := FilterCall.mapM_run_eq_ok hbuilt
  obtain ⟨-, hjoined⟩ := (andFilters_eq_ok_iff _ _).mp haccepted
  have htext : (Where.conjunction comparisons).text = text := by
    rw [Where.text_conjunction, hjoined]
  refine ⟨Where.conjunction comparisons, (parseWhere_eq_some_iff _ _).mpr htext, ?_,
    Where.joiners_conjunction comparisons, ?_⟩
  · rw [Where.comparisons_conjunction, hconditions]
  · intro other hother
    exact Where.text_injective (hother.trans htext.symm)

/-- The reading of a value that is itself a complete filter expression. -/
theorem andFilters_reads_back_hostile :
    ∃ expression : Where,
      parseWhere (js "(name,eq,\"a,(b)~or(id,eq,1\")~and(Id,in,2,-1.5)") = some expression ∧
      expression.comparisons.map Comparison.condition =
        [⟨js "name", js "eq", [.string (js "a,(b)~or(id,eq,1")]⟩,
          ⟨js "Id", js "in", [.number (.ofNat 2),
            .number (.finite (Decimal.normalize true 15 (-1)))]⟩] ∧
      (∀ joiner ∈ expression.joiners, joiner = .and) ∧
      ∀ other : Where,
        other.text = js "(name,eq,\"a,(b)~or(id,eq,1\")~and(Id,in,2,-1.5)" →
          other = expression :=
  andFilters_reads_back
    [.filterEq (js "name") (.string (js " a,(b)~or(id,eq,1 ")),
      .filterIn (js "id") [.number (.ofNat 2),
        .number (.finite (Decimal.normalize true 15 (-1)))]]
    [js "(name,eq,\"a,(b)~or(id,eq,1\")", js "(Id,in,2,-1.5)"] _ (by decide) (by decide)

/-- `andFilters` accepts the results of builder calls exactly when all numbers in them are
written without an exponent. -/
theorem andFilters_isOk_iff {calls : List FilterCall} {filters : List JsString}
    (hbuilt : calls.mapM FilterCall.run = .ok filters) :
    (∃ text, andFilters filters = .ok text) ↔ ∀ call ∈ calls, call.Plain := by
  obtain ⟨comparisons, rfl, -, hplain⟩ := FilterCall.mapM_run_eq_ok hbuilt
  rw [← hplain]
  simp only [andFilters_eq_ok_iff, List.forall_mem_map, text_mem_filterExpressionPattern]
  simp

theorem plain_filterCall_iff (call : FilterCall) :
    call.Plain ↔ ∀ x : Decimal, FilterValue.number (.finite x) ∈ call.values → x.Plain := by
  constructor
  · exact fun h x hx => h _ hx
  · intro h value hvalue
    match value with
    | .string _ => trivial
    | .boolean _ => trivial
    | .number .nan => trivial
    | .number (.infinity _) => trivial
    | .number (.finite x) => exact h x hvalue

/-- `andFilters` accepts the results of builder calls exactly when every number
in the calls is zero or lies, up to its sign, between `1e-6` and `1e21`, the
upper end excluded: the numbers that `String` writes without an exponent. -/
theorem andFilters_accepts_iff (calls : List FilterCall) (filters : List JsString)
    (hbuilt : calls.mapM FilterCall.run = .ok filters) :
    (∃ text, andFilters filters = .ok text) ↔
      ∀ call ∈ calls, ∀ x : Decimal, FilterValue.number (.finite x) ∈ call.values →
        x.value = 0 ∨ ((10 : ℚ) ^ (-6 : Int) ≤ |x.value| ∧ |x.value| < (10 : ℚ) ^ (21 : Int)) := by
  rw [andFilters_isOk_iff hbuilt]
  simp only [plain_filterCall_iff, Decimal.plain_iff]

/-- Two equality filters on ids, as the services compose them. -/
theorem andFilters_accepts_ids :
    (∃ text, andFilters [js "(user_id,eq,7)", js "(role_id,eq,2)"] = .ok text) ↔
      ∀ call ∈ [FilterCall.filterEq (js "user_id") (.number (.ofNat 7)),
          .filterEq (js "role_id") (.number (.ofNat 2))],
        ∀ x : Decimal, FilterValue.number (.finite x) ∈ call.values →
          x.value = 0 ∨
            ((10 : ℚ) ^ (-6 : Int) ≤ |x.value| ∧ |x.value| < (10 : ℚ) ^ (21 : Int)) :=
  andFilters_accepts_iff _ _ (by decide)

/-- `filterEq` builds a filter for the finite number `1e21` that `andFilters`
rejects. -/
theorem andFilters_rejects_exponent :
    (FilterCall.filterEq (js "role_id") (.number (.finite (Decimal.normalize false 1 21)))).run =
        .ok (js "(role_id,eq,1e+21)") ∧
      andFilters [js "(role_id,eq,1e+21)"] =
        .error (.badRequest (js "Invalid filter expression")) := by
  decide

end Filter
end NocoMiddleware
