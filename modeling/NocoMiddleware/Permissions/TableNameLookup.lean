import NocoMiddleware.Permissions.PermissionsManagementService

/-!
# Lookups by table name

The rule for logical table names as a grammar, and the filter by which a permission row is
looked up.  The filter is built exactly for the roles and names that can be written into a
`where` expression; for a valid name it asks for the name as it is stored.
-/

namespace NocoMiddleware

/-! ## Integers -/

namespace Js

/-- An integer. -/
def JsNumber.ofInt (r : Int) : JsNumber :=
  .finite (Decimal.normalize (decide (r < 0)) r.natAbs 0)

theorem value_normalize_natAbs (r : Int) :
    (Decimal.normalize (decide (r < 0)) r.natAbs 0).value = r := by
  rw [Decimal.value_normalize, zpow_zero, mul_one]
  by_cases hr : r < 0
  · have hcast : ((r.natAbs : Int) : ℚ) = ((-r : Int) : ℚ) := by
      rw [Int.ofNat_natAbs_of_nonpos hr.le]
    simp only [hr, decide_true, if_true]
    rw [← Int.cast_natCast, hcast]
    push_cast
    ring
  · have hcast : ((r.natAbs : Int) : ℚ) = (r : ℚ) := by
      rw [Int.natAbs_of_nonneg (not_lt.mp hr)]
    simp only [hr, decide_false]
    rw [← Int.cast_natCast, hcast]
    simp

/-- `String` writes a safe integer without an exponent. -/
theorem plain_ofInt {r : Int} (hr : |r| < 2 ^ 53) :
    (Decimal.normalize (decide (r < 0)) r.natAbs 0).Plain := by
  rw [Decimal.plain_iff, value_normalize_natAbs]
  by_cases hzero : r = 0
  · exact Or.inl (by simp [hzero])
  · refine Or.inr ⟨?_, ?_⟩
    · have hone : (1 : ℚ) ≤ |(r : ℚ)| := by
        exact_mod_cast Int.one_le_abs hzero
      exact le_trans (by norm_num) hone
    · have hbound : |(r : ℚ)| < 2 ^ 53 := by
        exact_mod_cast hr
      exact lt_trans hbound (by norm_num)

end Js

namespace Permissions

open NocoMiddleware.Js NocoMiddleware.Filter NocoMiddleware.Tables NocoMiddleware.Store
open NocoMiddleware.Foundation

/-! ## The grammar of table names -/

section

variable {unicode : UnicodeClasses}

/-- A letter, a number, a space, `_` or `-`. -/
def IsNameCode (unicode : UnicodeClasses) (code : Nat) : Prop :=
  unicode.letter code = true ∨ unicode.number code = true ∨ code = 32 ∨ code = 95 ∨ code = 45

/-- From 1 to 255 code points of names, with no space at either end. -/
structure IsTableName (unicode : UnicodeClasses) (codes : List Nat) : Prop where
  nonempty : 1 ≤ codes.length
  bounded : codes.length ≤ 255
  allowed : ∀ code ∈ codes, IsNameCode unicode code
  head : codes.head? ≠ some 32
  last : codes.getLast? ≠ some 32

theorem isInnerCode_iff {code : Nat} :
    isInnerCode unicode code = true ↔ IsNameCode unicode code := by
  simp only [isInnerCode, isEdgeCode, IsNameCode, Bool.or_eq_true, decide_eq_true_eq]
  tauto

/-- A space is neither a letter nor a number, so the edges are the other codes. -/
theorem isEdgeCode_iff {code : Nat} :
    isEdgeCode unicode code = true ↔ IsNameCode unicode code ∧ code ≠ 32 := by
  rw [← isInnerCode_iff, isInnerCode, Bool.or_eq_true, decide_eq_true_eq]
  by_cases hcode : code = 32
  · subst hcode
    have hspace : isEdgeCode unicode 32 = false := by
      rw [isEdgeCode, unicode.letter_ascii 32 (by omega), unicode.number_ascii 32 (by omega)]
      rfl
    simp [hspace]
  · simp [hcode]

/-- The regular expression describes the grammar. -/
theorem isTableName_iff {name : JsString} :
    isValidTableName unicode name = true ↔ IsTableName unicode (codePoints name) := by
  constructor
  · intro h
    obtain ⟨hinner, hhead, hlast, hne⟩ := codePoints_of_isValidTableName h
    constructor
    · exact List.length_pos_iff.mpr hne
    · obtain ⟨first, -, hname | ⟨middle, last, hlength, -, -, hname⟩⟩ :=
        (isValidTableName_iff unicode name).mp h
      · simp [hname]
      · rw [hname, List.length_cons, List.length_append, List.length_singleton]
        omega
    · intro code hcode
      exact isInnerCode_iff.mp (hinner code hcode)
    · intro hspace
      exact (isEdgeCode_iff.mp (hhead 32 hspace)).2 rfl
    · intro hspace
      exact (isEdgeCode_iff.mp (hlast 32 hspace)).2 rfl
  · intro h
    rw [isValidTableName_iff]
    generalize codePoints name = codes at h
    cases codes with
    | nil => exact absurd h.nonempty (by simp)
    | cons first rest =>
        have hfirst : isEdgeCode unicode first = true := by
          apply isEdgeCode_iff.mpr
          exact ⟨h.allowed first List.mem_cons_self, fun hspace => h.head (by rw [hspace]; rfl)⟩
        refine ⟨first, hfirst, ?_⟩
        rcases List.eq_nil_or_concat rest with rfl | ⟨middle, last, rfl⟩
        · exact Or.inl rfl
        · have hbounded := h.bounded
          rw [List.concat_eq_append, List.length_cons, List.length_append,
            List.length_singleton] at hbounded
          have hallowed := h.allowed
          rw [List.concat_eq_append] at hallowed
          refine Or.inr ⟨middle, last, by omega, ?_, ?_, by rw [List.concat_eq_append]⟩
          · intro code hcode
            apply isInnerCode_iff.mpr
            exact hallowed code (List.mem_cons_of_mem _ (List.mem_append_left _ hcode))
          · apply isEdgeCode_iff.mpr
            refine ⟨hallowed last (by simp), fun hspace => h.last ?_⟩
            rw [List.concat_eq_append, ← List.cons_append, List.getLast?_append, hspace]
            rfl

end

/-! ## The lookup of a permission row -/

section

variable {roleId : JsNumber} {name filter : JsString}

/-- The number is finite and written without an exponent. -/
def PlainNumber (number : JsNumber) : Prop :=
  ∃ x : Decimal, number = .finite x ∧ x.Plain

/-- The text can stand between the quotation marks of a filter. -/
structure Quotable (text : JsString) : Prop where
  nonempty : text ≠ []
  noQuote : quotationMark ∉ text
  noControl : hasControlCharacter text = false

instance (text : JsString) : Decidable (Quotable text) :=
  decidable_of_iff (text ≠ [] ∧ quotationMark ∉ text ∧ hasControlCharacter text = false)
    ⟨fun h => ⟨h.1, h.2.1, h.2.2⟩, fun h => ⟨h.nonempty, h.noQuote, h.noControl⟩⟩

theorem formatFilterValue_string_isOk_iff {text : JsString} :
    (∃ formatted, formatFilterValue (.string text) = .ok formatted) ↔ Quotable (trim text) := by
  unfold formatFilterValue
  dsimp only
  split
  · next hbad =>
      refine iff_of_false (by simp) fun h => ?_
      rcases hbad with hnil | hquote | hcontrol
      · exact h.nonempty hnil
      · exact h.noQuote hquote
      · rw [h.noControl] at hcontrol
        contradiction
  · next hgood =>
      refine iff_of_true ⟨_, rfl⟩ ?_
      simp only [not_or, Bool.not_eq_true] at hgood
      exact ⟨hgood.1, hgood.2.1, hgood.2.2⟩

/-- A filter on a text field is built for the texts that can be quoted. -/
theorem run_filterEq_text {field text : JsString}
    (hfield : filterFieldPattern.test field = true) :
    ((∃ filter, (FilterCall.filterEq field (.string text)).run = .ok filter) ∧
        (FilterCall.filterEq field (.string text)).Plain) ↔ Quotable (trim text) := by
  have hplain : (FilterCall.filterEq field (.string text)).Plain := by
    intro value hvalue
    rw [List.mem_singleton.mp hvalue]
    trivial
  rw [and_iff_left hplain, ← formatFilterValue_string_isOk_iff]
  show (∃ filter, filterEq field (.string text) = .ok filter) ↔ _
  have htitle : sanitizeFilterField field = .ok (fieldTitle field) := by
    simp [sanitizeFilterField, hfield]
  constructor
  · rintro ⟨filter, h⟩
    obtain ⟨title, -, h⟩ := bind_eq_ok.mp h
    obtain ⟨formatted, hformatted, -⟩ := bind_eq_ok.mp h
    exact ⟨formatted, hformatted⟩
  · rintro ⟨formatted, hformatted⟩
    refine ⟨js "(" ++ fieldTitle field ++ js ",eq," ++ formatted ++ js ")", ?_⟩
    exact bind_eq_ok.mpr ⟨_, htitle, bind_eq_ok.mpr ⟨_, hformatted, rfl⟩⟩

/-- A filter on a number field is built for the finite numbers, and can be joined with
another when the number has no exponent. -/
theorem run_filterEq_number {field : JsString} {number : JsNumber}
    (hfield : filterFieldPattern.test field = true) :
    ((∃ filter, (FilterCall.filterEq field (.number number)).run = .ok filter) ∧
        (FilterCall.filterEq field (.number number)).Plain) ↔ PlainNumber number := by
  constructor
  · rintro ⟨⟨filter, h⟩, hplain⟩
    obtain ⟨x, rfl⟩ := finite_of_filterEq h
    exact ⟨x, rfl, hplain _ (List.mem_singleton.mpr rfl)⟩
  · rintro ⟨x, rfl, hplain⟩
    refine ⟨filterEq_finite hfield x, ?_⟩
    intro value hvalue
    rw [List.mem_singleton.mp hvalue]
    exact hplain

/-- The lookup of a permission row is built exactly for plain role ids and for names that
can be quoted once they are trimmed. -/
theorem filterBoth_permission_isOk_iff :
    (∃ filter, filterBoth (js "role_id") (.number roleId) (js "table_name") (.string name) =
      .ok filter) ↔ PlainNumber roleId ∧ Quotable (trim name) := by
  have hleft : filterEqValue (js "role_id") (.number roleId) =
      (FilterCall.filterEq (js "role_id") (.number roleId)).run := rfl
  have hright : filterEqValue (js "table_name") (.string name) =
      (FilterCall.filterEq (js "table_name") (.string name)).run := rfl
  rw [filterBoth_isOk_iff hleft hright, run_filterEq_number (by decide),
    run_filterEq_text (by decide)]

/-- The lookup asks for the role and for the trimmed name, and for nothing else. -/
theorem filterBoth_permission_reads_back
    (h : filterBoth (js "role_id") (.number roleId) (js "table_name") (.string name) =
      .ok filter) :
    ∃ expression : Where, parseWhere filter = some expression ∧
      expression.comparisons.map Comparison.condition =
        [⟨js "role_id", js "eq", [.number roleId]⟩,
          ⟨js "table_name", js "eq", [.string (trim name)]⟩] ∧
      ∀ joiner ∈ expression.joiners, joiner = .and := by
  obtain ⟨left, hleft, h⟩ := bind_eq_ok.mp h
  obtain ⟨right, hright, hjoined⟩ := bind_eq_ok.mp h
  have hbuilt : [FilterCall.filterEq (js "role_id") (.number roleId),
      .filterEq (js "table_name") (.string name)].mapM FilterCall.run = .ok [left, right] := by
    have hleft' : (FilterCall.filterEq (js "role_id") (.number roleId)).run = .ok left := hleft
    have hright' : (FilterCall.filterEq (js "table_name") (.string name)).run = .ok right :=
      hright
    rw [List.mapM_cons, hleft', List.mapM_cons, hright']
    rfl
  obtain ⟨expression, hparse, hconditions, hjoiners, -⟩ := andFilters_reads_back _ _ _ hbuilt
    hjoined
  refine ⟨expression, hparse, ?_, hjoiners⟩
  have hrole : fieldTitle (js "role_id") = js "role_id" := by decide
  have htable : fieldTitle (js "table_name") = js "table_name" := by decide
  rw [hconditions]
  simp only [List.map_cons, List.map_nil, FilterCall.requested, FilterValue.requested, hrole,
    htable]

end

/-! ## Valid names -/

section

variable {unicode : UnicodeClasses} {name : JsString}

theorem quotable_of_isValidTableName (h : isValidTableName unicode name = true) :
    Quotable (trim name) :=
  formatFilterValue_string_isOk_iff.mp ⟨_, formatFilterValue_of_isValidTableName h⟩

/-- The lookup for a valid name selects the rows of the role that hold this very name. -/
theorem selectRows_permission {roleId : JsNumber} {filter : JsString}
    (hvalid : isValidTableName unicode name = true)
    (h : filterBoth (js "role_id") (.number roleId) (js "table_name") (.string name) =
      .ok filter) (rows : List Row) :
    selectRows filter rows = some (rows.filter fun row =>
      row.cell (js "role_id") = .number roleId ∧ row.cell (js "table_name") = .string name) := by
  rw [selectRows_filterBoth h]
  congr 1
  apply List.filter_congr
  intro row _
  rw [Bool.eq_iff_iff, satisfies_matches, decide_eq_true_iff, Matches,
    satisfies_eqCondition_string (by decide) row (trim_of_isValidTableName hvalid)]

/-- What a lookup has to do for the rows that `setTablePermissions` writes: it is built, it
reads as the comparison of both fields with what is written, and it finds these rows. -/
structure FindsWritten (roleId : JsNumber) (name filter : JsString) : Prop where
  built : filterBoth (js "role_id") (.number roleId) (js "table_name") (.string name) =
    .ok filter
  reads : ∃ expression : Where, parseWhere filter = some expression ∧
    expression.comparisons.map Comparison.condition =
      [⟨js "role_id", js "eq", [.number roleId]⟩, ⟨js "table_name", js "eq", [.string name]⟩] ∧
    ∀ joiner ∈ expression.joiners, joiner = .and
  selects : ∀ rows, selectRows filter rows = some (rows.filter fun row =>
    row.cell (js "role_id") = .number roleId ∧ row.cell (js "table_name") = .string name)
  stored : ∀ (flags : PermissionFlags) (row : Row) (rest : List (JsString × JsonScalar)),
    row.cells = toCells (permissionData ⟨flags, roleId, .string name⟩) ++ rest →
    row.cell (js "role_id") = .number roleId ∧ row.cell (js "table_name") = .string name

theorem findsWritten {roleId : JsNumber} (hplain : PlainNumber roleId)
    (hvalid : isValidTableName unicode name = true) :
    ∃ filter, FindsWritten roleId name filter := by
  obtain ⟨filter, hfilter⟩ := filterBoth_permission_isOk_iff.mpr
    ⟨hplain, quotable_of_isValidTableName hvalid⟩
  have hfinite : ∃ x, roleId = .finite x := hplain.imp fun _ h => h.1
  refine ⟨filter, hfilter, ?_, selectRows_permission hvalid hfilter, ?_⟩
  · have hreads := filterBoth_permission_reads_back hfilter
    rwa [trim_of_isValidTableName hvalid] at hreads
  · intro flags row rest hcells
    exact ⟨cell_role_id_of_written hfinite hcells,
      cell_table_name_of_written rfl hfinite hcells⟩

/-- The valid names are those of the grammar, and for every valid name and every safe
integer the lookup of `setTablePermissions` finds the row that its write stores. -/
theorem valid_names_found (unicode : UnicodeClasses) :
    (∀ name, isValidTableName unicode name = true ↔ IsTableName unicode (codePoints name)) ∧
      ∀ name, isValidTableName unicode name = true → ∀ r : Int, |r| < 2 ^ 53 →
        ∃ filter, FindsWritten (.ofInt r) name filter := by
  constructor
  · intro name
    exact isTableName_iff
  · intro name hvalid r hr
    exact findsWritten ⟨_, rfl, plain_ofInt hr⟩ hvalid

theorem valid_names_found_orders :
    ∃ filter, FindsWritten (.ofInt (-7)) (js "Customer Orders_2") filter :=
  (valid_names_found .ascii).2 _ (by decide) (-7) (by decide)

end

end Permissions
end NocoMiddleware
