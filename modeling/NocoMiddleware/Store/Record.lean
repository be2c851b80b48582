import NocoMiddleware.Foundation.Lookup
import NocoMiddleware.Filter.FilterCall

/-!
# Records and tables of NocoDB

Rows with a numeric primary key, tables of rows with distinct keys, and the
evaluation of `where` expressions on rows.  The services never see a row: they see
the flat records that `flattenRecord` makes of it.
-/

namespace NocoMiddleware
namespace Store

open NocoMiddleware.Js NocoMiddleware.Filter NocoMiddleware.Foundation

/-! ## Rows -/

/-- The fields that a create or update request carries. -/
abbrev Payload := List (JsString × JsValue)

/-- The cells that a payload writes: JSON has no `undefined`. -/
def toCells (payload : Payload) : List (JsString × JsonScalar) :=
  payload.filterMap fun entry => entry.2.toJson.map fun cell => (entry.1, cell)

/-- A row: its key, counted from 1, and its cells, the newest value of a field
first. -/
structure Row where
  id : Nat
  positive : 0 < id
  cells : List (JsString × JsonScalar)
  deriving DecidableEq

/-- The value of a field after it was overwritten with a value: `undefined` is not
written. -/
def written (value old : JsValue) : JsValue :=
  (value.toJson.map JsonScalar.toValue).getD old

/-- What is written for a field is the value that the payload has for it. -/
theorem lookup_toCells {payload : Payload} (hkeys : (payload.map Prod.fst).Nodup)
    (title : JsString) :
    (toCells payload).lookup title = (payload.lookup title).bind JsValue.toJson := by
  induction payload with
  | nil => rfl
  | cons entry payload ih =>
      obtain ⟨key, value⟩ := entry
      rw [List.map_cons, List.nodup_cons] at hkeys
      have htail := ih hkeys.2
      by_cases htitle : title = key
      · subst htitle
        cases hvalue : value.toJson with
        | some cell => simp [toCells, hvalue]
        | none =>
            -- the field is left out, and it does not occur a second time
            have habsent : payload.lookup title = none :=
              List.lookup_eq_none_iff.mpr fun other hother => by
                simp only [bne_iff_ne]
                rintro rfl
                exact hkeys.1 (List.mem_map.mpr ⟨other, hother, rfl⟩)
            rw [habsent] at htail
            have hcells : toCells ((title, value) :: payload) = toCells payload := by
              simp [toCells, hvalue]
            rw [hcells, htail]
            simp [hvalue]
      · have hne : (title == key) = false := by simpa using htitle
        rw [List.lookup_cons, hne, ← htail]
        cases hvalue : value.toJson with
        | some cell => simp [toCells, hvalue, List.lookup_cons, hne]
        | none => simp [toCells, hvalue]

namespace Row

/-- A row with a given key and cells; there is no key 0. -/
def ofCells (id : Nat) (cells : List (JsString × JsonScalar)) : Row :=
  ⟨max 1 id, Nat.le_max_left 1 id, cells⟩

/-- The value of a field of a row; `Id` is the primary key. -/
def cell (row : Row) (title : JsString) : JsValue :=
  if title = primaryKeyField then .number (.ofNat row.id)
  else ((row.cells.lookup title).map JsonScalar.toValue).getD .undefined

/-- The row with the fields of a payload overwritten. -/
def patch (row : Row) (payload : Payload) : Row :=
  { row with cells := toCells payload ++ row.cells }

theorem cell_of_cells {row : Row} {cells : List (JsString × JsonScalar)}
    (h : row.cells = cells) {title : JsString} (hprimary : title ≠ primaryKeyField) :
    row.cell title = ((cells.lookup title).map JsonScalar.toValue).getD .undefined := by
  rw [cell, if_neg hprimary, h]

@[simp] theorem id_patch (row : Row) (payload : Payload) : (row.patch payload).id = row.id := rfl

/-- A field that a payload does not have is left alone. -/
theorem cell_patch_of_notMem (row : Row) {payload : Payload} {title : JsString}
    (h : title ∉ payload.map Prod.fst) : (row.patch payload).cell title = row.cell title := by
  have hlookup : (toCells payload).lookup title = none :=
    List.lookup_eq_none_iff.mpr fun entry hentry => by
      simp only [bne_iff_ne]
      rintro rfl
      obtain ⟨written, hwritten, hcell⟩ := List.mem_filterMap.mp hentry
      obtain ⟨cell, -, rfl⟩ := Option.map_eq_some_iff.mp hcell
      exact h (List.mem_map.mpr ⟨written, hwritten, rfl⟩)
  rw [cell, cell, patch, List.lookup_append, hlookup]
  rfl

/-- The fields of a row after a payload was written over it. -/
theorem cell_patch (row : Row) {payload : Payload} (hkeys : (payload.map Prod.fst).Nodup)
    {title : JsString} (hprimary : title ≠ primaryKeyField) :
    (row.patch payload).cell title =
      written ((payload.lookup title).getD .undefined) (row.cell title) := by
  rw [cell, if_neg hprimary, cell, if_neg hprimary, patch, List.lookup_append,
    lookup_toCells hkeys, written]
  cases payload.lookup title with
  | none => rfl
  | some value =>
      rw [Option.bind_some, Option.getD_some]
      cases value.toJson <;> rfl

/-- The fields of a row that a payload was written to. -/
theorem cell_of_toCells {row : Row} {payload : Payload} (hcells : row.cells = toCells payload)
    (hkeys : (payload.map Prod.fst).Nodup) {title : JsString} (hprimary : title ≠ primaryKeyField) :
    row.cell title = written ((payload.lookup title).getD .undefined) .undefined := by
  rw [cell_of_cells hcells hprimary, lookup_toCells hkeys, written]
  cases payload.lookup title with
  | none => rfl
  | some value => rfl

/-- Writing a field of a row back leaves it as it is. -/
@[simp] theorem written_cell (row : Row) {title : JsString} (hprimary : title ≠ primaryKeyField) :
    written (row.cell title) (row.cell title) = row.cell title := by
  rw [cell, if_neg hprimary]
  cases row.cells.lookup title with
  | none => rfl
  | some cell =>
      rw [Option.map_some, Option.getD_some, written, JsonScalar.toJson_toValue]
      rfl

end Row

/-- A flat record as the middleware handles it. -/
structure NocoRecord where
  id : JsValue
  fields : List (JsString × JsonScalar)
  deriving DecidableEq

/-- `record[key]`. -/
def NocoRecord.get (record : NocoRecord) (key : JsString) : JsValue :=
  if key = js "id" then record.id
  else ((record.fields.lookup key).map JsonScalar.toValue).getD .undefined

/-- The record of a row, restricted to the requested fields if there are any. -/
def flattenRecord (fields : Option (List JsString)) (row : Row) : NocoRecord where
  id := .number (.ofNat row.id)
  fields :=
    match fields with
    | none => row.cells
    | some titles => row.cells.filter fun entry => entry.1 ∈ titles

/-- `extractNumericId`. -/
def extractNumericId (record : NocoRecord) : Except Exception JsNumber :=
  let invalid := .error (.notFound (js "Invalid NocoDB record ID payload"))
  match record.id with
  | .number value => .ok value
  | .string value =>
      if value = [] then invalid
      else
        match stringToNumber value with
        | .nan => invalid
        | parsed => .ok parsed
  | _ => invalid

@[simp] theorem extractNumericId_flattenRecord (fields : Option (List JsString)) (row : Row) :
    extractNumericId (flattenRecord fields row) = .ok (.ofNat row.id) := rfl

/-- The id of a record is never falsy. -/
@[simp] theorem truthy_id_flattenRecord (fields : Option (List JsString)) (row : Row) :
    (flattenRecord fields row).id.truthy = true :=
  JsNumber.truthy_ofNat row.positive

@[simp] theorem get_id_flattenRecord (fields : Option (List JsString)) (row : Row) :
    (flattenRecord fields row).get (js "id") = .number (.ofNat row.id) := rfl

/-- A field of a record is the cell of its row. -/
theorem get_flattenRecord {row : Row} {key : JsString} (hid : key ≠ js "id")
    (hprimary : key ≠ primaryKeyField) : (flattenRecord none row).get key = row.cell key := by
  simp [NocoRecord.get, flattenRecord, Row.cell, hid, hprimary]

private theorem lookup_filter {titles : List JsString} {cells : List (JsString × JsonScalar)}
    {key : JsString} (h : key ∈ titles) :
    (cells.filter fun entry => entry.1 ∈ titles).lookup key = cells.lookup key := by
  induction cells with
  | nil => rfl
  | cons entry cells ih =>
      obtain ⟨title, cell⟩ := entry
      by_cases htitle : title ∈ titles
      · have hkept : ((title, cell) :: cells).filter (fun entry => entry.1 ∈ titles) =
            (title, cell) :: cells.filter (fun entry => entry.1 ∈ titles) :=
          List.filter_cons_of_pos (by simpa using htitle)
        rw [hkept, List.lookup_cons, List.lookup_cons, ih]
      · have hne : (key == title) = false := by
          rw [beq_eq_false_iff_ne]
          rintro rfl
          exact htitle h
        have hdropped : ((title, cell) :: cells).filter (fun entry => entry.1 ∈ titles) =
            cells.filter (fun entry => entry.1 ∈ titles) :=
          List.filter_cons_of_neg (by simpa using htitle)
        rw [hdropped, List.lookup_cons, hne, ih]

/-- A requested field of a record is the cell of its row. -/
theorem get_flattenRecord_of_mem {row : Row} {titles : List JsString} {key : JsString}
    (hkey : key ∈ titles) (hid : key ≠ js "id") (hprimary : key ≠ primaryKeyField) :
    (flattenRecord (some titles) row).get key = row.cell key := by
  simp only [NocoRecord.get, flattenRecord, Row.cell, if_neg hid, if_neg hprimary,
    lookup_filter hkey]

/-! ## Tables -/

/-- The rows of a table in the order in which NocoDB lists them; keys are
distinct. -/
@[ext] structure Table where
  rows : List Row
  keys : (rows.map Row.id).Nodup

namespace Table

/-- A table without rows. -/
def empty : Table :=
  ⟨[], List.nodup_nil⟩

/-- A table with the given rows, whose keys must be distinct. -/
def ofRows (rows : List Row) : Table :=
  if keys : (rows.map Row.id).Nodup then ⟨rows, keys⟩ else empty

/-- The table with a new row at the end. -/
def insert (table : Table) (row : Row) (h : row.id ∉ table.rows.map Row.id) : Table where
  rows := table.rows ++ [row]
  keys := by
    rw [List.map_append, List.nodup_append]
    refine ⟨table.keys, by simp, ?_⟩
    rintro id hid _ hrow rfl
    obtain rfl : id = row.id := by simpa using hrow
    exact h hid

/-- The row of a record id. -/
def find (table : Table) (recordId : JsNumber) : Option Row :=
  table.rows.find? fun row => recordId = .ofNat row.id

/-- The table with a record overwritten. -/
def update (table : Table) (recordId : JsNumber) (payload : Payload) : Table where
  rows := table.rows.map fun row => if recordId = .ofNat row.id then row.patch payload else row
  keys := by
    have hids : (table.rows.map fun row =>
        if recordId = .ofNat row.id then row.patch payload else row).map Row.id =
          table.rows.map Row.id := by
      rw [List.map_map]
      apply List.map_congr_left
      intro row _
      show Row.id (if recordId = .ofNat row.id then row.patch payload else row) = row.id
      split <;> rfl
    rw [hids]
    exact table.keys

/-- The table without a record. -/
def delete (table : Table) (recordId : JsNumber) : Table where
  rows := table.rows.filter fun row => recordId ≠ .ofNat row.id
  keys := table.keys.sublist (List.filter_sublist.map Row.id)

/-- The rows with a key are one row. -/
theorem eq_of_id_eq {table : Table} {first second : Row} (hfirst : first ∈ table.rows)
    (hsecond : second ∈ table.rows) (h : first.id = second.id) : first = second :=
  List.inj_on_of_nodup_map table.keys hfirst hsecond h

theorem find_ofNat_eq_some_iff (table : Table) (id : Nat) (row : Row) :
    table.find (.ofNat id) = some row ↔ row ∈ table.rows ∧ row.id = id := by
  constructor
  · intro h
    obtain ⟨hmem, hid⟩ := of_find h
    exact ⟨hmem, (JsNumber.ofNat_inj.mp hid).symm⟩
  · rintro ⟨hmem, rfl⟩
    refine find_of_unique hmem (Eq.refl (JsNumber.ofNat row.id)) ?_
    intro other hother hid
    exact eq_of_id_eq hother hmem (JsNumber.ofNat_inj.mp hid).symm

@[simp] theorem rows_insert (table : Table) (row : Row) (h : row.id ∉ table.rows.map Row.id) :
    (table.insert row h).rows = table.rows ++ [row] := rfl

theorem mem_update {table : Table} {id : Nat} {payload : Payload} {row : Row}
    (h : row ∈ (table.update (.ofNat id) payload).rows) :
    (row ∈ table.rows ∧ row.id ≠ id) ∨
      ∃ old ∈ table.rows, old.id = id ∧ row = old.patch payload := by
  obtain ⟨old, hold, rfl⟩ := List.mem_map.mp h
  by_cases hid : old.id = id
  · exact Or.inr ⟨old, hold, hid, by simp [hid]⟩
  · refine Or.inl ?_
    have hne : JsNumber.ofNat id ≠ .ofNat old.id := fun h => hid (JsNumber.ofNat_inj.mp h).symm
    simpa [hne] using ⟨hold, hid⟩

/-- The rows after a row of the table was overwritten. -/
theorem replaced_of_mem_update {table : Table} {row other : Row} {payload : Payload}
    (hrow : row ∈ table.rows) (hother : other ∈ (table.update (.ofNat row.id) payload).rows) :
    (other ∈ table.rows ∧ other ≠ row) ∨ other = row.patch payload := by
  rcases mem_update hother with ⟨hmem, hid⟩ | ⟨old, hold, hid, rfl⟩
  · exact Or.inl ⟨hmem, fun heq => hid (congrArg Row.id heq)⟩
  · rw [eq_of_id_eq hold hrow hid]
    exact Or.inr rfl

theorem mem_delete {table : Table} {id : Nat} {row : Row} :
    row ∈ (table.delete (.ofNat id)).rows ↔ row ∈ table.rows ∧ row.id ≠ id := by
  have hid : JsNumber.ofNat id ≠ .ofNat row.id ↔ row.id ≠ id := by
    rw [Ne, JsNumber.ofNat_inj, Ne, eq_comm]
  rw [← hid]
  simp only [delete, List.mem_filter, decide_eq_true_eq]

end Table

/-! ## Evaluating filters -/

/-- The condition holds of the row. -/
def satisfies (row : Row) (condition : Condition) : Bool :=
  let value := row.cell condition.field
  if condition.operator = js "eq" then condition.values = [value]
  else if condition.operator = js "in" then condition.values.contains value
  else if condition.operator = js "checked" then value.truthy
  else if condition.operator = js "notchecked" then !value.truthy
  else false

theorem satisfies_eq (row : Row) (field : JsString) (value : JsValue) :
    satisfies row ⟨field, js "eq", [value]⟩ = true ↔ row.cell field = value := by
  simp [satisfies, eq_comm]

theorem satisfies_in (row : Row) (field : JsString) (values : List JsValue) :
    satisfies row ⟨field, js "in", values⟩ = true ↔ row.cell field ∈ values := by
  have hne : js "in" ≠ js "eq" := by decide
  simp [satisfies, hne]

/-- The expression holds of the row.  Joiners associate to the left; the
middleware only writes conjunctions. -/
def selects (expression : Where) (row : Row) : Bool :=
  match expression with
  | .everything => true
  | .chain first rest =>
      rest.foldl
        (fun holds link =>
          match link.1 with
          | .and => holds && satisfies row link.2.condition
          | .or => holds || satisfies row link.2.condition)
        (satisfies row first.condition)

theorem selects_conjunction (comparisons : List Comparison) (row : Row) :
    selects (Where.conjunction comparisons) row =
      comparisons.all fun comparison => satisfies row comparison.condition := by
  cases comparisons with
  | nil => rfl
  | cons first rest =>
      have hfold : ∀ (links : List Comparison) (start : Bool),
          (links.map fun comparison => (Joiner.and, comparison)).foldl
            (fun holds link =>
              match link.1 with
              | .and => holds && satisfies row link.2.condition
              | .or => holds || satisfies row link.2.condition) start =
            (start && links.all fun comparison => satisfies row comparison.condition) := by
        intro links
        induction links with
        | nil => simp
        | cons link links ih =>
            intro start
            rw [List.map_cons, List.foldl_cons, ih, List.all_cons, Bool.and_assoc]
      exact hfold rest _

/-- The rows of a list that a `where` text selects; a text that NocoDB cannot read
selects nothing because the request fails. -/
def selectRows (filter : JsString) (rows : List Row) : Option (List Row) :=
  (parseWhere filter).map fun expression => rows.filter (selects expression)

/-- The text that a builder returns selects the rows that satisfy the requested
condition. -/
theorem selectRows_of_run {call : FilterCall} {filter : JsString} (h : call.run = .ok filter)
    (rows : List Row) :
    selectRows filter rows = some (rows.filter fun row => satisfies row call.requested) := by
  obtain ⟨comparison, htext, hcondition, -⟩ := FilterCall.run_eq_ok h
  have hparse : parseWhere filter = some (.chain comparison []) :=
    (parseWhere_eq_some_iff _ _).mpr (by rw [Where.text_chain_nil, htext])
  rw [selectRows, hparse, Option.map_some]
  congr 1
  apply List.filter_congr
  intro row _
  show satisfies row comparison.condition = satisfies row call.requested
  rw [hcondition]

/-- The text that `andFilters` returns for two builder results selects the rows
that satisfy both requested conditions. -/
theorem selectRows_of_andFilters {first second : FilterCall} {left right filter : JsString}
    (hleft : first.run = .ok left) (hright : second.run = .ok right)
    (hjoined : andFilters [left, right] = .ok filter) (rows : List Row) :
    selectRows filter rows = some (rows.filter fun row =>
      satisfies row first.requested && satisfies row second.requested) := by
  obtain ⟨leftComparison, hleftText, hleftCondition, -⟩ := FilterCall.run_eq_ok hleft
  obtain ⟨rightComparison, hrightText, hrightCondition, -⟩ := FilterCall.run_eq_ok hright
  have htext : (Where.conjunction [leftComparison, rightComparison]).text = filter := by
    unfold andFilters at hjoined
    split at hjoined
    · rw [Where.text_conjunction, ← Except.ok.inj hjoined]
      simp [hleftText, hrightText]
    · contradiction
  have hparse := (parseWhere_eq_some_iff filter _).mpr htext
  rw [selectRows, hparse, Option.map_some]
  congr 1
  apply List.filter_congr
  intro row _
  rw [selects_conjunction]
  simp [hleftCondition, hrightCondition]

end Store
end NocoMiddleware
