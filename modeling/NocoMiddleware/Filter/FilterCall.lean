import NocoMiddleware.Filter.FilterUtil
import NocoMiddleware.Filter.WhereLanguage

/-!
# What a builder call writes

A call of a filter builder that returns a string returns the text of one
comparison, and that comparison expresses what the call asks for
(`FilterCall.run_eq_ok`).  The validating pattern accepts exactly the texts of
*accepted* comparisons (`mem_filterExpressionPattern`).  The two descriptions
together say how `andFilters` treats the results of the builders.
-/

namespace NocoMiddleware
namespace Filter

open Js Foundation

/-- A call of one of the four builders. -/
inductive FilterCall where
  | filterEq (field : JsString) (value : FilterValue)
  | filterIn (field : JsString) (values : List FilterValue)
  | filterChecked (field : JsString)
  | filterNotChecked (field : JsString)
  deriving DecidableEq

/-- The value that a comparison with a given value must contain: strings are
trimmed. -/
def FilterValue.requested : FilterValue → JsValue
  | string value => .string (trim value)
  | number value => .number value
  | boolean value => .boolean value

/-- The number, if the value is one, is written without an exponent. -/
def FilterValue.Plain : FilterValue → Prop
  | number (.finite x) => x.Plain
  | _ => True

namespace FilterCall

/-- Performs the call. -/
def run : FilterCall → Except Exception JsString
  | filterEq field value => Filter.filterEq field value
  | filterIn field values => Filter.filterIn field values
  | filterChecked field => Filter.filterChecked field
  | filterNotChecked field => Filter.filterNotChecked field

/-- What the call asks for. -/
def requested : FilterCall → Condition
  | filterEq field (.boolean value) =>
      ⟨fieldTitle field, if value then js "checked" else js "notchecked", []⟩
  | filterEq field value => ⟨fieldTitle field, js "eq", [value.requested]⟩
  | filterIn field values =>
      ⟨fieldTitle field, js "in", values.map FilterValue.requested⟩
  | filterChecked field => ⟨fieldTitle field, js "checked", []⟩
  | filterNotChecked field => ⟨fieldTitle field, js "notchecked", []⟩

/-- The values that the call passes. -/
def values : FilterCall → List FilterValue
  | filterEq _ value => [value]
  | filterIn _ values => values
  | filterChecked _ => []
  | filterNotChecked _ => []

end FilterCall

/-! ## Fields and values -/

/-- The members of a class without delimiters are plain. -/
theorem unitRole_of_class {p : CodeUnit → Bool} (hquote : p quotationMark = false)
    (hmarks : ∀ mark : Punctuation, p mark.unit = false) {unit : CodeUnit}
    (h : p unit = true) : unitRole unit = .plain := by
  cases hrole : unitRole unit with
  | quote =>
      rw [unitRole_eq_quote hrole, hquote] at h
      contradiction
  | punctuation mark =>
      rw [unitRole_eq_punctuation hrole, hmarks mark] at h
      contradiction
  | plain => rfl

theorem unitRole_of_isFieldUnit {unit : CodeUnit} (h : isFieldUnit unit = true) :
    unitRole unit = .plain := by
  refine unitRole_of_class (by decide) (fun mark => ?_) h
  cases mark <;> decide

theorem unitRole_of_isNumberUnit {unit : CodeUnit} (h : Decimal.isNumberUnit unit = true) :
    unitRole unit = .plain := by
  refine unitRole_of_class (by decide) (fun mark => ?_) h
  cases mark <;> decide

/-- A nonempty text of field characters, as a bare word. -/
def fieldWord (field : JsString) (hne : field ≠ [])
    (hunits : ∀ unit ∈ field, isFieldUnit unit = true) : Word :=
  ⟨⟨field, fun unit hunit => unitRole_of_isFieldUnit (hunits unit hunit)⟩, hne⟩

theorem sanitizeFilterField_eq_ok {field title : JsString}
    (h : sanitizeFilterField field = .ok title) :
    title = fieldTitle field ∧ title ≠ [] ∧ ∀ unit ∈ title, isFieldUnit unit = true := by
  unfold sanitizeFilterField at h
  split at h
  · next htest =>
      obtain rfl : fieldTitle field = title := by simpa using h
      have hfield := (Pattern.test_iff _ _).mp htest
      rw [filterFieldPattern, Pattern.mem_language_oneOrMore_symbol] at hfield
      refine ⟨rfl, ?_⟩
      unfold fieldTitle
      split
      · exact ⟨by decide, forall_units (by decide)⟩
      · exact hfield
  · contradiction

/-- The text of a number, as a bare word. -/
def numberWord (x : Decimal) : Word :=
  ⟨⟨x.text, fun _ hunit => unitRole_of_isNumberUnit (Decimal.isNumberUnit_of_mem_text hunit)⟩,
    x.text_ne_nil⟩

theorem value_numberWord (x : Decimal) :
    (Literal.bare (numberWord x)).value = .number (.finite x) := by
  simp [Literal.value, numberWord, Decimal.readNumeral_text]

/-- The numerals of the validating pattern. -/
theorem mem_numeralPattern (word : JsString) :
    word ∈ numeralPattern.language ↔
      ∃ sign whole fraction, (sign = js "-" ∨ sign = []) ∧
        (whole ≠ [] ∧ ∀ unit ∈ whole, isDigit unit = true) ∧
        (fraction = [] ∨ ∃ digits, (digits ≠ [] ∧ ∀ unit ∈ digits, isDigit unit = true) ∧
          fraction = js "." ++ digits) ∧
        word = sign ++ whole ++ fraction := by
  simp only [numeralPattern, Pattern.mem_language_andThen, Pattern.mem_language_optional,
    Pattern.mem_language_literal, Pattern.mem_language_oneOrMore_symbol]
  constructor
  · rintro ⟨sign, hsign, _, ⟨whole, hwhole, fraction, hfraction, rfl⟩, rfl⟩
    refine ⟨sign, whole, fraction, hsign, hwhole, ?_, by simp⟩
    rcases hfraction with ⟨point, rfl, digits, hdigits, rfl⟩ | rfl
    · exact Or.inr ⟨digits, hdigits, rfl⟩
    · exact Or.inl rfl
  · rintro ⟨sign, whole, fraction, hsign, hwhole, hfraction, rfl⟩
    refine ⟨sign, hsign, whole ++ fraction, ⟨whole, hwhole, fraction, ?_, rfl⟩, by simp⟩
    rcases hfraction with rfl | ⟨digits, hdigits, rfl⟩
    · exact Or.inr rfl
    · exact Or.inl ⟨js ".", rfl, digits, hdigits, rfl⟩

/-- The pattern accepts the text of a number exactly when the number is plain. -/
theorem text_mem_numeralPattern (x : Decimal) :
    x.text ∈ numeralPattern.language ↔ x.Plain := by
  rw [mem_numeralPattern]
  constructor
  · rintro ⟨sign, whole, fraction, hsign, ⟨-, hwhole⟩, hfraction, htext⟩
    by_contra hplain
    have hmem := Decimal.mem_text_of_not_plain hplain
    have hdigit : isDigit 101 = false := by decide
    rw [htext, List.mem_append, List.mem_append] at hmem
    rcases hmem with (hmem | hmem) | hmem
    · rcases hsign with rfl | rfl
      · revert hmem
        decide
      · simp at hmem
    · rw [hwhole _ hmem] at hdigit
      contradiction
    · rcases hfraction with rfl | ⟨digits, ⟨-, hdigits⟩, rfl⟩
      · simp at hmem
      · rcases List.mem_append.mp hmem with hmem | hmem
        · revert hmem
          decide
        · rw [hdigits _ hmem] at hdigit
          contradiction
  · intro hplain
    obtain ⟨negative, parts, hexponent, htext⟩ := Decimal.text_of_plain hplain
    refine ⟨if negative then js "-" else [], parts.whole, parts.fractionText, ?_,
      ⟨parts.whole_ne_nil, parts.whole_digits⟩, ?_, ?_⟩
    · cases negative <;> simp
    · unfold NumeralParts.fractionText
      by_cases hfraction : parts.fraction = []
      · exact Or.inl (if_pos hfraction)
      · exact Or.inr ⟨parts.fraction, ⟨hfraction, parts.fraction_digits⟩, if_neg hfraction⟩
    · simp [htext, NumeralParts.text, NumeralParts.exponentPart, hexponent]

/-- The validating pattern accepts the literal. -/
def Literal.Accepted : Literal → Prop
  | quoted _ => True
  | bare name => name.text ∈ numeralPattern.language

/-- A formatted value is the text of one literal, which denotes the value. -/
theorem formatFilterValue_eq_ok {value : FilterValue} {text : JsString}
    (h : formatFilterValue value = .ok text) :
    ∃ literal : Literal, literal.token.text = text ∧ literal.value = value.requested ∧
      (literal.Accepted ↔ value.Plain) := by
  cases value with
  | string value =>
      simp only [formatFilterValue] at h
      split at h
      · contradiction
      · next hvalid =>
          have hclosed : ∀ unit ∈ trim value, unit ≠ quotationMark := by
            rintro unit hunit rfl
            exact hvalid (Or.inr (Or.inl hunit))
          obtain rfl := Except.ok.inj h
          exact ⟨.quoted ⟨trim value, hclosed⟩, rfl, rfl, Iff.rfl⟩
  | number value =>
      cases value with
      | nan => simp [formatFilterValue] at h
      | infinity negative => simp [formatFilterValue] at h
      | finite x =>
          obtain rfl := Except.ok.inj h
          exact ⟨.bare (numberWord x), rfl, value_numberWord x, text_mem_numeralPattern x⟩
  | boolean value => simp [formatFilterValue] at h

/-! ## Comparisons and the validating pattern -/

/-- The validating pattern accepts the comparison. -/
def Comparison.Accepted (comparison : Comparison) : Prop :=
  (∀ unit ∈ comparison.field.text, isFieldUnit unit = true) ∧
    (((comparison.operator.text = js "eq" ∨ comparison.operator.text = js "in") ∧
        comparison.values ≠ [] ∧ ∀ literal ∈ comparison.values, literal.Accepted) ∨
      ((comparison.operator.text = js "checked" ∨ comparison.operator.text = js "notchecked") ∧
        comparison.values = []))

theorem mem_quotedPattern (word : JsString) :
    word ∈ quotedPattern.language ↔
      ∃ content : Quoted, word = quotationMark :: content.text ++ [quotationMark] := by
  simp only [quotedPattern, Pattern.mem_language_andThen, Pattern.mem_language_symbol,
    Pattern.mem_language_many_symbol, decide_eq_true_eq]
  constructor
  · rintro ⟨_, ⟨_, rfl, rfl⟩, _, ⟨content, hcontent, _, ⟨_, rfl, rfl⟩, rfl⟩, rfl⟩
    exact ⟨⟨content, hcontent⟩, by simp⟩
  · rintro ⟨content, rfl⟩
    exact ⟨_, ⟨_, rfl, rfl⟩, _, ⟨content.text, content.closed, _, ⟨_, rfl, rfl⟩, rfl⟩, by simp⟩

/-- A numeral of the validating pattern is a bare word. -/
theorem exists_word_of_mem_numeralPattern {text : JsString}
    (h : text ∈ numeralPattern.language) : ∃ name : Word, name.text = text := by
  obtain ⟨sign, whole, fraction, hsign, ⟨hne, hwhole⟩, hfraction, rfl⟩ :=
    (mem_numeralPattern _).mp h
  refine ⟨⟨⟨_, fun unit hunit => ?_⟩, by simp [hne]⟩, rfl⟩
  apply unitRole_of_isNumberUnit
  rw [List.mem_append, List.mem_append] at hunit
  rcases hunit with (hunit | hunit) | hunit
  · rcases hsign with rfl | rfl
    · obtain rfl : unit = 45 := by simpa [js] using hunit
      decide
    · simp at hunit
  · simp [Decimal.isNumberUnit, hwhole unit hunit]
  · rcases hfraction with rfl | ⟨digits, ⟨-, hdigits⟩, rfl⟩
    · simp at hunit
    · rcases List.mem_append.mp hunit with hunit | hunit
      · obtain rfl : unit = 46 := by simpa [js] using hunit
        decide
      · simp [Decimal.isNumberUnit, hdigits unit hunit]

/-- The value pattern accepts exactly the texts of accepted literals. -/
theorem mem_filterValuePattern (word : JsString) :
    word ∈ filterValuePattern.language ↔
      ∃ literal : Literal, literal.Accepted ∧ literal.token.text = word := by
  rw [filterValuePattern, Pattern.mem_language_either, mem_quotedPattern]
  constructor
  · rintro (⟨content, rfl⟩ | h)
    · exact ⟨.quoted content, trivial, rfl⟩
    · obtain ⟨name, rfl⟩ := exists_word_of_mem_numeralPattern h
      exact ⟨.bare name, h, rfl⟩
  · rintro ⟨literal, haccepted, rfl⟩
    cases literal with
    | quoted content => exact Or.inl ⟨content, rfl⟩
    | bare name => exact Or.inr haccepted

/-- `(?:,V)*` accepts exactly the written lists of accepted literals. -/
theorem mem_valueTail (word : JsString) :
    word ∈ (Pattern.many (.andThen (.literal (js ",")) filterValuePattern)).language ↔
      ∃ literals : List Literal, (∀ literal ∈ literals, literal.Accepted) ∧
        word = literals.flatMap fun literal => commaUnit :: literal.token.text := by
  rw [Pattern.mem_language_many]
  simp only [Pattern.mem_language_andThen, Pattern.mem_language_literal,
    mem_filterValuePattern]
  constructor
  · rintro ⟨parts, rfl, hparts⟩
    induction parts with
    | nil => exact ⟨[], by simp, rfl⟩
    | cons part parts ih =>
        obtain ⟨literals, hliterals, htext⟩ :=
          ih fun other hother => hparts other (List.mem_cons_of_mem _ hother)
        obtain ⟨_, rfl, _, ⟨literal, haccepted, rfl⟩, rfl⟩ := hparts part List.mem_cons_self
        refine ⟨literal :: literals, List.forall_mem_cons.mpr ⟨haccepted, hliterals⟩, ?_⟩
        rw [List.flatten_cons, htext, List.flatMap_cons]
        rfl
  · rintro ⟨literals, hliterals, rfl⟩
    refine ⟨literals.map fun literal => commaUnit :: literal.token.text, ?_, ?_⟩
    · exact List.flatMap_def
    · intro part hpart
      obtain ⟨literal, hliteral, rfl⟩ := List.mem_map.mp hpart
      exact ⟨js ",", rfl, literal.token.text, ⟨literal, hliterals literal hliteral, rfl⟩, rfl⟩

/-- The condition pattern accepts an operator with its values. -/
theorem mem_filterConditionPattern (word : JsString) :
    word ∈ filterConditionPattern.language ↔
      ∃ (operator : Word) (literals : List Literal),
        (((operator.text = js "eq" ∨ operator.text = js "in") ∧
            literals ≠ [] ∧ ∀ literal ∈ literals, literal.Accepted) ∨
          ((operator.text = js "checked" ∨ operator.text = js "notchecked") ∧
            literals = [])) ∧
        word = operator.text ++
          literals.flatMap fun literal => commaUnit :: literal.token.text := by
  simp only [filterConditionPattern, Pattern.mem_language_either, Pattern.mem_language_andThen,
    Pattern.mem_language_literal, mem_filterValuePattern, mem_valueTail]
  constructor
  · rintro (⟨operator, hoperator, _, ⟨_, rfl, _, ⟨_, ⟨literal, haccepted, rfl⟩, _,
      ⟨literals, hliterals, rfl⟩, rfl⟩, rfl⟩, rfl⟩ | hoperator)
    · have hword : ∃ name : Word, name.text = operator := by
        rcases hoperator with rfl | rfl
        · exact ⟨fieldWord (js "eq") (by decide) (forall_units (by decide)), rfl⟩
        · exact ⟨fieldWord (js "in") (by decide) (forall_units (by decide)), rfl⟩
      obtain ⟨name, rfl⟩ := hword
      refine ⟨name, literal :: literals, Or.inl ⟨hoperator, by simp, ?_⟩, ?_⟩
      · exact List.forall_mem_cons.mpr ⟨haccepted, hliterals⟩
      · simp [js, commaUnit]
    · have hword : ∃ name : Word, name.text = word := by
        rcases hoperator with rfl | rfl
        · exact ⟨fieldWord (js "checked") (by decide) (forall_units (by decide)), rfl⟩
        · exact ⟨fieldWord (js "notchecked") (by decide) (forall_units (by decide)), rfl⟩
      obtain ⟨name, rfl⟩ := hword
      exact ⟨name, [], Or.inr ⟨hoperator, rfl⟩, by simp⟩
  · rintro ⟨operator, literals, ⟨hoperator, hne, hliterals⟩ | ⟨hoperator, rfl⟩, rfl⟩
    · obtain ⟨literal, literals, rfl⟩ := List.exists_cons_of_ne_nil hne
      obtain ⟨haccepted, hliterals⟩ := List.forall_mem_cons.mp hliterals
      refine Or.inl ⟨operator.text, hoperator, _, ⟨js ",", rfl, _, ⟨literal.token.text,
        ⟨literal, haccepted, rfl⟩, _, ⟨literals, hliterals, rfl⟩, rfl⟩, rfl⟩, ?_⟩
      simp [js, commaUnit]
    · simpa using Or.inr hoperator

/-- `FILTER_EXPRESSION_PATTERN` accepts exactly the texts of accepted
comparisons. -/
theorem mem_filterExpressionPattern (word : JsString) :
    word ∈ filterExpressionPattern.language ↔
      ∃ comparison : Comparison, comparison.Accepted ∧ comparison.text = word := by
  simp only [filterExpressionPattern, Pattern.mem_language_andThen,
    Pattern.mem_language_literal, Pattern.mem_language_oneOrMore_symbol,
    mem_filterConditionPattern]
  constructor
  · rintro ⟨_, rfl, _, ⟨field, ⟨hne, hfield⟩, _, ⟨_, rfl, _, ⟨_, ⟨operator, literals,
      haccepted, rfl⟩, _, rfl, rfl⟩, rfl⟩, rfl⟩, rfl⟩
    refine ⟨⟨fieldWord field hne hfield, operator, literals⟩, ⟨hfield, haccepted⟩, ?_⟩
    rw [Comparison.text_eq]
    simp [fieldWord, js, leftParenthesis, commaUnit, rightParenthesis]
  · rintro ⟨comparison, ⟨hfield, haccepted⟩, rfl⟩
    refine ⟨js "(", rfl, _, ⟨comparison.field.text, ⟨comparison.field.nonempty, hfield⟩, _,
      ⟨js ",", rfl, _, ⟨_, ⟨comparison.operator, comparison.values, haccepted, rfl⟩, js ")",
        rfl, rfl⟩, rfl⟩, rfl⟩, ?_⟩
    rw [Comparison.text_eq]
    simp [js, leftParenthesis, commaUnit, rightParenthesis]

/-! ## The builders write comparisons -/

/-- A list of formatted values is a list of texts of literals that denote the
values. -/
theorem mapM_formatFilterValue_eq_ok {values : List FilterValue} {texts : List JsString}
    (h : values.mapM formatFilterValue = .ok texts) :
    ∃ literals : List Literal, texts = literals.map (fun literal => literal.token.text) ∧
      literals.map Literal.value = values.map FilterValue.requested ∧
      ((∀ literal ∈ literals, literal.Accepted) ↔ ∀ value ∈ values, value.Plain) := by
  have hall := forall₂_of_mapM_eq_ok h
  clear h
  induction hall with
  | nil => exact ⟨[], rfl, rfl, by simp⟩
  | cons hhead _ ih =>
      obtain ⟨literal, rfl, hvalue, haccepted⟩ := formatFilterValue_eq_ok hhead
      obtain ⟨literals, rfl, hvalues, hall⟩ := ih
      refine ⟨literal :: literals, rfl, by simp [hvalue, hvalues], ?_⟩
      rw [List.forall_mem_cons, List.forall_mem_cons, haccepted, hall]

/-- Values joined by commas, behind a comma. -/
theorem comma_append_intercalate {literals : List Literal} (hne : literals ≠ []) :
    js "," ++ (js ",").intercalate (literals.map fun literal => literal.token.text) =
      literals.flatMap fun literal => commaUnit :: literal.token.text := by
  have hcomma : js "," = [commaUnit] := by decide
  obtain ⟨first, rest, rfl⟩ := List.exists_cons_of_ne_nil hne
  rw [hcomma]
  clear hne
  induction rest generalizing first with
  | nil => simp [List.intercalate]
  | cons second rest ih =>
      have hrest := ih second
      rw [List.flatMap_cons, ← hrest]
      simp [List.intercalate]

/-- The text of a comparison by its parts. -/
theorem exists_comparison {title operator : JsString} (literals : List Literal)
    (htitle : title ≠ [] ∧ ∀ unit ∈ title, isFieldUnit unit = true)
    (hoperator : operator ≠ [] ∧ ∀ unit ∈ operator, isFieldUnit unit = true) :
    ∃ comparison : Comparison,
      comparison.text = leftParenthesis :: title ++ commaUnit :: operator ++
        literals.flatMap (fun literal => commaUnit :: literal.token.text) ++
        [rightParenthesis] ∧
      comparison.condition = ⟨title, operator, literals.map Literal.value⟩ ∧
      comparison.field.text = title ∧ comparison.operator.text = operator ∧
      comparison.values = literals :=
  ⟨⟨fieldWord title htitle.1 htitle.2, fieldWord operator hoperator.1 hoperator.2, literals⟩,
    Comparison.text_eq _, rfl, rfl, rfl, rfl⟩

namespace FilterCall

/-- All numbers that the call passes are written without an exponent. -/
def Plain (call : FilterCall) : Prop :=
  ∀ value ∈ call.values, value.Plain

/-- A checkbox call writes the comparison it asks for. -/
private theorem checkbox_eq_ok {field title operator text : JsString}
    (htitle : sanitizeFilterField field = .ok title)
    (hoperator : operator = js "checked" ∨ operator = js "notchecked")
    (htext : text = js "(" ++ title ++ js "," ++ operator ++ js ")") :
    ∃ comparison : Comparison, comparison.text = text ∧
      comparison.condition = ⟨fieldTitle field, operator, []⟩ ∧ comparison.Accepted := by
  obtain ⟨rfl, hvalid⟩ := sanitizeFilterField_eq_ok htitle
  have hunits : operator ≠ [] ∧ ∀ unit ∈ operator, isFieldUnit unit = true := by
    rcases hoperator with rfl | rfl <;> exact ⟨by decide, forall_units (by decide)⟩
  obtain ⟨comparison, hwritten, hcondition, hfield, hop, hvalues⟩ :=
    exists_comparison [] hvalid hunits
  refine ⟨comparison, ?_, hcondition, ?_⟩
  · rw [hwritten, htext]
    simp [js, leftParenthesis, commaUnit, rightParenthesis]
  · refine ⟨?_, Or.inr ⟨?_, hvalues⟩⟩
    · rw [hfield]
      exact hvalid.2
    · rwa [hop]

/-- A call with values writes the comparison it asks for. -/
private theorem comparing_eq_ok {field title operator text : JsString}
    {literals : List Literal} (values : List FilterValue)
    (htitle : sanitizeFilterField field = .ok title)
    (hoperator : operator = js "eq" ∨ operator = js "in") (hne : literals ≠ [])
    (hvalues : literals.map Literal.value = values.map FilterValue.requested)
    (haccepted : (∀ literal ∈ literals, literal.Accepted) ↔ ∀ value ∈ values, value.Plain)
    (htext : text = js "(" ++ title ++ js "," ++ operator ++
      (js "," ++ (js ",").intercalate (literals.map fun literal => literal.token.text)) ++
      js ")") :
    ∃ comparison : Comparison, comparison.text = text ∧
      comparison.condition =
        ⟨fieldTitle field, operator, values.map FilterValue.requested⟩ ∧
      (comparison.Accepted ↔ ∀ value ∈ values, value.Plain) := by
  obtain ⟨rfl, hvalid⟩ := sanitizeFilterField_eq_ok htitle
  have hunits : operator ≠ [] ∧ ∀ unit ∈ operator, isFieldUnit unit = true := by
    rcases hoperator with rfl | rfl <;> exact ⟨by decide, forall_units (by decide)⟩
  have hnot : ¬ (operator = js "checked" ∨ operator = js "notchecked") := by
    rcases hoperator with rfl | rfl <;> decide
  obtain ⟨comparison, hwritten, hcondition, hfield, hop, hliterals⟩ :=
    exists_comparison literals hvalid hunits
  refine ⟨comparison, ?_, by rw [hcondition, hvalues], ?_⟩
  · rw [hwritten, htext, comma_append_intercalate hne]
    simp [js, leftParenthesis, commaUnit, rightParenthesis]
  · rw [← haccepted, Comparison.Accepted, hfield, hop, hliterals]
    constructor
    · rintro ⟨-, ⟨-, -, hall⟩ | ⟨hwrong, -⟩⟩
      · exact hall
      · exact absurd hwrong hnot
    · intro hall
      exact ⟨hvalid.2, Or.inl ⟨hoperator, hne, hall⟩⟩

private theorem filterChecked_eq_ok {field text : JsString}
    (h : Filter.filterChecked field = .ok text) :
    ∃ comparison : Comparison, comparison.text = text ∧
      comparison.condition = ⟨fieldTitle field, js "checked", []⟩ ∧ comparison.Accepted := by
  obtain ⟨title, htitle, hreturn⟩ := bind_eq_ok.mp h
  refine checkbox_eq_ok htitle (Or.inl rfl) ?_
  rw [← pure_eq_ok.mp hreturn]
  simp [js]

private theorem filterNotChecked_eq_ok {field text : JsString}
    (h : Filter.filterNotChecked field = .ok text) :
    ∃ comparison : Comparison, comparison.text = text ∧
      comparison.condition = ⟨fieldTitle field, js "notchecked", []⟩ ∧
      comparison.Accepted := by
  obtain ⟨title, htitle, hreturn⟩ := bind_eq_ok.mp h
  refine checkbox_eq_ok htitle (Or.inr rfl) ?_
  rw [← pure_eq_ok.mp hreturn]
  simp [js]

/-- `filterEq` on a value that is no boolean. -/
private theorem filterEq_eq_ok {field text : JsString} (value : FilterValue)
    (hvalue : ∀ flag, value ≠ .boolean flag) (h : Filter.filterEq field value = .ok text) :
    ∃ comparison : Comparison, comparison.text = text ∧
      comparison.condition = ⟨fieldTitle field, js "eq", [value.requested]⟩ ∧
      (comparison.Accepted ↔ value.Plain) := by
  have hunfold : Filter.filterEq field value = (do
      let title ← sanitizeFilterField field
      let formatted ← formatFilterValue value
      return js "(" ++ title ++ js ",eq," ++ formatted ++ js ")") := by
    cases value with
    | string value => rfl
    | number value => rfl
    | boolean flag => exact absurd rfl (hvalue flag)
  rw [hunfold] at h
  obtain ⟨title, htitle, h⟩ := bind_eq_ok.mp h
  obtain ⟨formatted, hformatted, hreturn⟩ := bind_eq_ok.mp h
  obtain ⟨literal, rfl, hrequested, haccepted⟩ := formatFilterValue_eq_ok hformatted
  have htext : text = js "(" ++ title ++ js "," ++ js "eq" ++
      (js "," ++ (js ",").intercalate ([literal].map fun literal => literal.token.text)) ++
      js ")" := by
    rw [← pure_eq_ok.mp hreturn]
    simp [js, List.intercalate]
  have hresult := comparing_eq_ok [value] htitle (Or.inl rfl) (by simp)
    (by simp [hrequested]) (by simpa using haccepted) htext
  simpa using hresult

private theorem filterIn_eq_ok {field text : JsString} {values : List FilterValue}
    (h : Filter.filterIn field values = .ok text) :
    ∃ comparison : Comparison, comparison.text = text ∧
      comparison.condition =
        ⟨fieldTitle field, js "in", values.map FilterValue.requested⟩ ∧
      (comparison.Accepted ↔ ∀ value ∈ values, value.Plain) := by
  unfold Filter.filterIn at h
  split at h
  · contradiction
  · next hempty =>
      obtain ⟨title, htitle, h⟩ := bind_eq_ok.mp h
      obtain ⟨texts, hformatted, hreturn⟩ := bind_eq_ok.mp h
      obtain ⟨literals, rfl, hrequested, haccepted⟩ := mapM_formatFilterValue_eq_ok hformatted
      have hne : literals ≠ [] := by
        rintro rfl
        exact hempty (List.map_eq_nil_iff.mp hrequested.symm)
      refine comparing_eq_ok values htitle (Or.inr rfl) hne hrequested haccepted ?_
      rw [← pure_eq_ok.mp hreturn]
      simp [js]

/-- A call that returns a string returns the text of the comparison that it asks
for, and the validating pattern accepts it exactly when the numbers in it are
plain. -/
theorem run_eq_ok {call : FilterCall} {text : JsString} (h : call.run = .ok text) :
    ∃ comparison : Comparison, comparison.text = text ∧
      comparison.condition = call.requested ∧ (comparison.Accepted ↔ call.Plain) := by
  cases call with
  | filterEq field value =>
      cases value with
      | string value =>
          simpa [Plain, values, requested] using
            filterEq_eq_ok (.string value) (by simp) h
      | number value =>
          simpa [Plain, values, requested] using
            filterEq_eq_ok (.number value) (by simp) h
      | boolean value =>
          have hplain : (filterEq field (.boolean value)).Plain := by
            simp [Plain, values, FilterValue.Plain]
          cases value with
          | true =>
              obtain ⟨comparison, htext, hcondition, haccepted⟩ := filterChecked_eq_ok h
              exact ⟨comparison, htext, hcondition, iff_of_true haccepted hplain⟩
          | false =>
              obtain ⟨comparison, htext, hcondition, haccepted⟩ := filterNotChecked_eq_ok h
              exact ⟨comparison, htext, hcondition, iff_of_true haccepted hplain⟩
  | filterIn field values => exact filterIn_eq_ok h
  | filterChecked field =>
      obtain ⟨comparison, htext, hcondition, haccepted⟩ := filterChecked_eq_ok h
      exact ⟨comparison, htext, hcondition, iff_of_true haccepted (by simp [Plain, values])⟩
  | filterNotChecked field =>
      obtain ⟨comparison, htext, hcondition, haccepted⟩ := filterNotChecked_eq_ok h
      exact ⟨comparison, htext, hcondition, iff_of_true haccepted (by simp [Plain, values])⟩

/-- The results of a list of calls are the texts of a list of comparisons. -/
theorem mapM_run_eq_ok {calls : List FilterCall} {filters : List JsString}
    (h : calls.mapM run = .ok filters) :
    ∃ comparisons : List Comparison, filters = comparisons.map Comparison.text ∧
      comparisons.map Comparison.condition = calls.map requested ∧
      ((∀ comparison ∈ comparisons, comparison.Accepted) ↔ ∀ call ∈ calls, call.Plain) := by
  have hall := forall₂_of_mapM_eq_ok h
  clear h
  induction hall with
  | nil => exact ⟨[], rfl, rfl, by simp⟩
  | cons hhead _ ih =>
      obtain ⟨comparison, rfl, hcondition, haccepted⟩ := run_eq_ok hhead
      obtain ⟨comparisons, rfl, hconditions, hall⟩ := ih
      refine ⟨comparison :: comparisons, rfl, by simp [hcondition, hconditions], ?_⟩
      rw [List.forall_mem_cons, List.forall_mem_cons, haccepted, hall]

end FilterCall

end Filter
end NocoMiddleware
