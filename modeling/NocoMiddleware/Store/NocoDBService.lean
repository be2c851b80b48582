import NocoMiddleware.Filter.Conjunction
import NocoMiddleware.Store.World

/-!
# The requests of `NocoDBService`

The methods of `nocodb.service.ts` that the services use, as programs, and for
each single step the rule that reduces its weakest precondition to what NocoDB
answers.
-/

namespace NocoMiddleware
namespace Store

open NocoMiddleware.Js NocoMiddleware.Filter NocoMiddleware.Tables NocoMiddleware.Permissions
open NocoMiddleware.Foundation

/-! ## Methods -/

/-- `getTableByName`. -/
def getTableByName (tablePrefix tableName : JsString) : Service (Option TableMeta) := do
  let tables ← Program.call Op.listTables
  return resolve tablePrefix tables tableName

/-- `list` with a filter and a limit. -/
def list (tableId filter : JsString) (limit : Nat) : Service (List NocoRecord) :=
  Program.call (Op.list tableId filter limit)

/-- `findOne`. -/
def findOne (tableId filter : JsString) : Service (Option NocoRecord) := do
  let result ← list tableId filter 1
  return result.head?

/-- `listAll`. -/
def listAll (tableId filter : JsString) (fields : Option (List JsString)) :
    Service (List NocoRecord) :=
  Program.call (Op.listAll tableId filter fields)

/-- `read`. -/
def read (tableId : JsString) (recordId : JsNumber) : Service (Option NocoRecord) :=
  Program.call (Op.read tableId recordId)

/-- `create`. -/
def create (tableId : JsString) (data : Payload) : Service NocoRecord :=
  Program.call (Op.create tableId data)

/-- `update`. -/
def update (tableId : JsString) (recordId : JsNumber) (data : Payload) : Service NocoRecord :=
  Program.call (Op.update tableId recordId data)

/-- `delete`. -/
def delete (tableId : JsString) (recordId : JsNumber) : Service Unit :=
  Program.call (Op.delete tableId recordId)

/-- `clearCache` of `PermissionsService`. -/
def clearCache (userId : Option JsNumber) : Service Unit :=
  Program.call (Op.clearCache userId)

/-- `new Date().toISOString()`. -/
def newDate : Service JsString :=
  Program.call Op.newDate

/-- `hashPassword`. -/
def hashPassword (password : JsString) : Service JsString :=
  Program.call (Op.hashPassword password)

/-- `assertTableRef` on the answer of `getTableByName`. -/
def assertTableRef (table : Option TableMeta) : Service TableMeta :=
  match table with
  | some found => pure found
  | none => throw (.notFound (js "Required table reference is missing"))

/-- `filterEq` on a value read from a record.  A value without `trim` raises a type
error once the field is checked. -/
def filterEqValue (field : JsString) : JsValue → Except Exception JsString
  | .string value => filterEq field (.string value)
  | .number value => filterEq field (.number value)
  | .boolean value => filterEq field (.boolean value)
  | _ => do
      let _ ← sanitizeFilterField field
      throw .typeError

/-- `andFilters(filterEq(first, firstValue), filterEq(second, secondValue))`. -/
def filterBoth (first : JsString) (firstValue : JsValue) (second : JsString)
    (secondValue : JsValue) : Except Exception JsString := do
  let left ← filterEqValue first firstValue
  let right ← filterEqValue second secondValue
  andFilters [left, right]

/-! ## Lookups by one or two fields -/

/-- The condition that `filterEqValue` asks for. -/
def eqCondition (field : JsString) : JsValue → Condition
  | .string value => ⟨fieldTitle field, js "eq", [.string (trim value)]⟩
  | .boolean value => ⟨fieldTitle field, if value then js "checked" else js "notchecked", []⟩
  | value => ⟨fieldTitle field, js "eq", [value]⟩

/-- A filter is built for strings, numbers and booleans only. -/
theorem filterEqValue_eq_ok {field filter : JsString} {value : JsValue}
    (h : filterEqValue field value = .ok filter) :
    ∃ call : FilterCall, call.run = .ok filter ∧ call.requested = eqCondition field value := by
  cases value with
  | string text => exact ⟨.filterEq field (.string text), h, rfl⟩
  | number number => exact ⟨.filterEq field (.number number), h, rfl⟩
  | boolean flag => exact ⟨.filterEq field (.boolean flag), h, rfl⟩
  | undefined =>
      obtain ⟨-, -, h⟩ := bind_eq_ok.mp h
      contradiction
  | null =>
      obtain ⟨-, -, h⟩ := bind_eq_ok.mp h
      contradiction

theorem selectRows_filterEqValue {field filter : JsString} {value : JsValue}
    (h : filterEqValue field value = .ok filter) (rows : List Row) :
    selectRows filter rows =
      some (rows.filter fun row => satisfies row (eqCondition field value)) := by
  obtain ⟨call, hrun, hrequested⟩ := filterEqValue_eq_ok h
  rw [selectRows_of_run hrun, hrequested]

theorem selectRows_filterBoth {first second filter : JsString} {firstValue secondValue : JsValue}
    (h : filterBoth first firstValue second secondValue = .ok filter) (rows : List Row) :
    selectRows filter rows = some (rows.filter fun row =>
      satisfies row (eqCondition first firstValue) &&
        satisfies row (eqCondition second secondValue)) := by
  obtain ⟨left, hleft, h⟩ := bind_eq_ok.mp h
  obtain ⟨right, hright, hjoined⟩ := bind_eq_ok.mp h
  obtain ⟨leftCall, hleftRun, hleftRequested⟩ := filterEqValue_eq_ok hleft
  obtain ⟨rightCall, hrightRun, hrightRequested⟩ := filterEqValue_eq_ok hright
  rw [selectRows_of_andFilters hleftRun hrightRun hjoined, hleftRequested, hrightRequested]

/-- A number that a filter could be built for is finite. -/
theorem finite_of_filterEq {field filter : JsString} {value : JsNumber}
    (h : filterEq field (.number value) = .ok filter) : ∃ x, value = .finite x := by
  cases value with
  | finite x => exact ⟨x, rfl⟩
  | nan =>
      obtain ⟨title, -, h⟩ := bind_eq_ok.mp h
      obtain ⟨formatted, hformatted, -⟩ := bind_eq_ok.mp h
      contradiction
  | infinity negative =>
      obtain ⟨title, -, h⟩ := bind_eq_ok.mp h
      obtain ⟨formatted, hformatted, -⟩ := bind_eq_ok.mp h
      contradiction

/-- A filter that cannot be built is no conflict. -/
theorem isConflict_of_filterEqValue {field : JsString} {value : JsValue} {exception : Exception}
    (h : filterEqValue field value = .error exception) : exception.isConflict = false := by
  have hfilter : ∀ value, filterEq field value = .error exception →
      exception.isConflict = false := by
    intro value herror
    obtain ⟨message, rfl⟩ := badRequest_of_filterEq herror
    rfl
  have hmissing : (do
        let _ ← sanitizeFilterField field
        throw .typeError : Except Exception JsString) = .error exception →
      exception.isConflict = false := by
    intro herror
    rcases bind_eq_error.mp herror with herror | ⟨_, -, herror⟩
    · obtain ⟨message, rfl⟩ := badRequest_of_sanitizeFilterField herror
      rfl
    · obtain rfl := Except.error.inj herror
      rfl
  cases value with
  | string text => exact hfilter (.string text) h
  | number number => exact hfilter (.number number) h
  | boolean flag => exact hfilter (.boolean flag) h
  | undefined => exact hmissing h
  | null => exact hmissing h

theorem isConflict_of_filterBoth {first second : JsString} {firstValue secondValue : JsValue}
    {exception : Exception}
    (h : filterBoth first firstValue second secondValue = .error exception) :
    exception.isConflict = false := by
  rcases bind_eq_error.mp h with h | ⟨left, -, h⟩
  · exact isConflict_of_filterEqValue h
  · rcases bind_eq_error.mp h with h | ⟨right, -, h⟩
    · exact isConflict_of_filterEqValue h
    · obtain ⟨message, rfl⟩ := badRequest_of_andFilters h
      rfl

/-- Two filters are joined when neither writes a number with an exponent. -/
theorem filterBoth_isOk_iff {first second : JsString} {firstValue secondValue : JsValue}
    {left right : FilterCall} (hleft : filterEqValue first firstValue = left.run)
    (hright : filterEqValue second secondValue = right.run) :
    (∃ filter, filterBoth first firstValue second secondValue = .ok filter) ↔
      ((∃ text, left.run = .ok text) ∧ left.Plain) ∧
        (∃ text, right.run = .ok text) ∧ right.Plain := by
  have hjoined : ∀ leftText rightText, left.run = .ok leftText → right.run = .ok rightText →
      ((∃ filter, andFilters [leftText, rightText] = .ok filter) ↔ left.Plain ∧ right.Plain) := by
    intro leftText rightText hleftText hrightText
    have hbuilt : [left, right].mapM FilterCall.run = .ok [leftText, rightText] := by
      rw [List.mapM_cons, hleftText, List.mapM_cons, hrightText]
      rfl
    rw [andFilters_isOk_iff hbuilt]
    simp
  constructor
  · rintro ⟨filter, h⟩
    obtain ⟨leftText, hleftText, h⟩ := bind_eq_ok.mp h
    obtain ⟨rightText, hrightText, h⟩ := bind_eq_ok.mp h
    rw [hleft] at hleftText
    rw [hright] at hrightText
    obtain ⟨hleftPlain, hrightPlain⟩ := (hjoined _ _ hleftText hrightText).mp ⟨filter, h⟩
    exact ⟨⟨⟨_, hleftText⟩, hleftPlain⟩, ⟨_, hrightText⟩, hrightPlain⟩
  · rintro ⟨⟨⟨leftText, hleftText⟩, hleftPlain⟩, ⟨rightText, hrightText⟩, hrightPlain⟩
    obtain ⟨filter, h⟩ := (hjoined _ _ hleftText hrightText).mpr ⟨hleftPlain, hrightPlain⟩
    refine ⟨filter, ?_⟩
    rw [filterBoth, hleft, hright, hleftText, hrightText]
    exact h

/-- A filter on an id is built, and can be joined with another when the id is written
without an exponent. -/
theorem run_filterEq_id {field : JsString} (hfield : filterFieldPattern.test field = true)
    (id : Nat) :
    ((∃ text, (FilterCall.filterEq field (.number (.ofNat id))).run = .ok text) ∧
        (FilterCall.filterEq field (.number (.ofNat id))).Plain) ↔ id < 10 ^ 21 := by
  have hbuilt : ∃ text, (FilterCall.filterEq field (.number (.ofNat id))).run = .ok text := by
    simp [FilterCall.run, filterEq, sanitizeFilterField, hfield, formatFilterValue,
      JsNumber.ofNat, bind, Except.bind, pure, Except.pure]
  rw [and_iff_right hbuilt, ← Decimal.plain_ofNat_iff]
  constructor
  · intro h
    exact h _ (List.mem_singleton.mpr rfl)
  · intro h value hvalue
    rw [List.mem_singleton.mp hvalue]
    exact h

/-- A filter on two ids is built exactly when both are written without an exponent. -/
theorem filterBoth_ids_iff {first second : JsString}
    (hfirst : filterFieldPattern.test first = true)
    (hsecond : filterFieldPattern.test second = true) (id other : Nat) :
    (∃ filter, filterBoth first (.number (.ofNat id)) second (.number (.ofNat other)) =
        .ok filter) ↔ id < 10 ^ 21 ∧ other < 10 ^ 21 := by
  have hleft : filterEqValue first (.number (.ofNat id)) =
      (FilterCall.filterEq first (.number (.ofNat id))).run := rfl
  have hright : filterEqValue second (.number (.ofNat other)) =
      (FilterCall.filterEq second (.number (.ofNat other))).run := rfl
  rw [filterBoth_isOk_iff hleft hright, run_filterEq_id hfirst, run_filterEq_id hsecond]

theorem satisfies_eqCondition_number {field : JsString} (hid : field ≠ js "id") (row : Row)
    (value : JsNumber) :
    satisfies row (eqCondition field (.number value)) = true ↔
      row.cell field = .number value := by
  rw [eqCondition, satisfies_eq, fieldTitle, if_neg hid]
  · exact fun _ h => by cases h
  · exact fun _ h => by cases h

theorem satisfies_eqCondition_string {field : JsString} (hid : field ≠ js "id") (row : Row)
    {value : JsString} (htrim : trim value = value) :
    satisfies row (eqCondition field (.string value)) = true ↔
      row.cell field = .string value := by
  rw [eqCondition, satisfies_eq, fieldTitle, if_neg hid, htrim]

/-! ## Nothing but time -/

/-- Nothing has happened but the passage of time. -/
structure Unchanged (world world' : World) : Prop where
  tables : world'.tables = world.tables
  rows : world'.rows = world.rows
  cache : world'.cache = world.cache
  clock : world.clock ≤ world'.clock

namespace Unchanged

theorem refl (world : World) : Unchanged world world :=
  ⟨rfl, rfl, rfl, Nat.le_refl _⟩

theorem trans {first second third : World} (h : Unchanged first second)
    (h' : Unchanged second third) : Unchanged first third :=
  ⟨h'.tables.trans h.tables, h'.rows.trans h.rows, h'.cache.trans h.cache,
    h.clock.trans h'.clock⟩

theorem advance (world : World) (elapsed : Nat) : Unchanged world (world.advance elapsed) :=
  ⟨rfl, rfl, rfl, Nat.le_add_right _ _⟩

end Unchanged

/-! ## Rules for single steps -/

section

variable {faults : Bool} {world : World}

/-- A step under the contract of NocoDB: a failed request if faults are allowed, or
the answer to the step, after some time. -/
theorem wp_call_nocodb {op : Op} {post : Except Exception (Res op) → World → Prop}
    (hfail : faults = true → ∀ world', Unchanged world world' → post (.error .upstream) world')
    (hanswer : ∀ choice earlier, choice.legal faults op world = true → Unchanged world earlier →
      post (answer choice earlier op).1 (answer choice earlier op).2) :
    wp (nocodb faults).contract (Program.call op) post world := by
  refine ⟨trivial, ?_⟩
  rintro result world' ⟨choice, hlegal, hrespond⟩
  have hallowed : choice.legal faults op world = true := hlegal
  simp only [nocodb, respond] at hrespond
  split at hrespond
  · next hfails =>
      obtain ⟨rfl, rfl⟩ := Prod.mk.inj hrespond
      refine hfail ?_ _ (Unchanged.advance world choice.elapsed)
      simp only [Bool.and_eq_true] at hfails
      simp only [Choice.legal, hfails.1, Bool.and_eq_true] at hallowed
      simpa using hallowed.1
  · have hpost := hanswer choice _ hallowed (Unchanged.advance world choice.elapsed)
    rw [hrespond] at hpost
    exact hpost

theorem wp_getTableByName {tablePrefix tableName : JsString}
    {post : Except Exception (Option TableMeta) → World → Prop}
    (hfail : faults = true → ∀ world', Unchanged world world' → post (.error .upstream) world')
    (hfound : ∀ world', Unchanged world world' →
      post (.ok (resolve tablePrefix world.tables tableName)) world') :
    wp (nocodb faults).contract (getTableByName tablePrefix tableName) post world := by
  rw [getTableByName, wp_bind]
  refine wp_call_nocodb hfail fun _ earlier _ hearlier => ?_
  have hpost := hfound earlier hearlier
  rwa [← hearlier.tables] at hpost

theorem wp_list {tableId filter : JsString} {limit : Nat}
    {post : Except Exception (List NocoRecord) → World → Prop} {rows : List Row}
    (hselect : selectRows filter (world.rows tableId).rows = some rows)
    (hfail : faults = true → ∀ world', Unchanged world world' → post (.error .upstream) world')
    (hfound : ∀ world', Unchanged world world' →
      post (.ok ((rows.take limit).map (flattenRecord none))) world') :
    wp (nocodb faults).contract (list tableId filter limit) post world := by
  refine wp_call_nocodb hfail fun _ earlier _ hearlier => ?_
  simp only [answer, hearlier.rows, hselect]
  exact hfound earlier hearlier

/-- A listing of at most one row is a lookup. -/
theorem wp_list_find {tableId filter : JsString} {q : Row → Bool}
    {post : Except Exception (List NocoRecord) → World → Prop}
    (hselect : ∀ rows, selectRows filter rows = some (rows.filter q))
    (hfail : faults = true → ∀ world', Unchanged world world' → post (.error .upstream) world')
    (hfound : ∀ world', Unchanged world world' →
      post (.ok (((world.rows tableId).rows.find? q).toList.map (flattenRecord none))) world') :
    wp (nocodb faults).contract (list tableId filter 1) post world := by
  refine wp_list (hselect _) hfail fun world' hworld' => ?_
  rw [List.take_one, List.head?_filter]
  exact hfound world' hworld'

/-- A listing of at most one row, for the rows with a property: it is empty because
there are none, or holds the first one. -/
theorem wp_list_one {tableId filter : JsString} {q : Row → Bool} {p : Row → Prop}
    {post : Except Exception (List NocoRecord) → World → Prop}
    (hselect : ∀ rows, selectRows filter rows = some (rows.filter q))
    (hq : ∀ row, q row = true ↔ p row)
    (hfail : faults = true → ∀ world', Unchanged world world' → post (.error .upstream) world')
    (hnone : (∀ row ∈ (world.rows tableId).rows, ¬ p row) →
      ∀ world', Unchanged world world' → post (.ok []) world')
    (hsome : ∀ row ∈ (world.rows tableId).rows, p row →
      ∀ world', Unchanged world world' → post (.ok [flattenRecord none row]) world') :
    wp (nocodb faults).contract (list tableId filter 1) post world := by
  refine wp_list_find hselect hfail fun world' hworld' => ?_
  cases hfind : (world.rows tableId).rows.find? q with
  | none =>
      refine hnone (fun row hrow hp => ?_) world' hworld'
      exact List.find?_eq_none.mp hfind row hrow ((hq row).mpr hp)
  | some row =>
      have hp := (hq row).mp (List.find?_some hfind)
      exact hsome row (List.mem_of_find?_eq_some hfind) hp world' hworld'

/-- A lookup finds no row with the property that it asks for, or the first one. -/
theorem wp_findOne {tableId filter : JsString} {q : Row → Bool} {p : Row → Prop}
    {post : Except Exception (Option NocoRecord) → World → Prop}
    (hselect : ∀ rows, selectRows filter rows = some (rows.filter q))
    (hq : ∀ row, q row = true ↔ p row)
    (hfail : faults = true → ∀ world', Unchanged world world' → post (.error .upstream) world')
    (hnone : (∀ row ∈ (world.rows tableId).rows, ¬ p row) →
      ∀ world', Unchanged world world' → post (.ok none) world')
    (hsome : ∀ row ∈ (world.rows tableId).rows, p row →
      ∀ world', Unchanged world world' → post (.ok (some (flattenRecord none row))) world') :
    wp (nocodb faults).contract (findOne tableId filter) post world := by
  rw [findOne, wp_bind]
  exact wp_list_one hselect hq hfail hnone hsome

/-- A lookup finds the first row with the property that it asks for. -/
theorem wp_findOne_find {tableId filter : JsString} {q : Row → Bool}
    {post : Except Exception (Option NocoRecord) → World → Prop}
    (hselect : ∀ rows, selectRows filter rows = some (rows.filter q))
    (hfail : faults = true → ∀ world', Unchanged world world' → post (.error .upstream) world')
    (hfound : ∀ world', Unchanged world world' →
      post (.ok (((world.rows tableId).rows.find? q).map (flattenRecord none))) world') :
    wp (nocodb faults).contract (findOne tableId filter) post world := by
  rw [findOne, wp_bind]
  refine wp_list_find hselect hfail fun world' hworld' => ?_
  show post (.ok (((world.rows tableId).rows.find? q).toList.map (flattenRecord none)).head?)
    world'
  rw [List.head?_map, Option.head?_toList]
  exact hfound world' hworld'

theorem wp_listAll {tableId filter : JsString} {fields : Option (List JsString)}
    {post : Except Exception (List NocoRecord) → World → Prop} {rows : List Row}
    (hselect : selectRows filter (world.rows tableId).rows = some rows)
    (hfail : faults = true → ∀ world', Unchanged world world' → post (.error .upstream) world')
    (hfound : ∀ world', Unchanged world world' →
      post (.ok (rows.map (flattenRecord fields))) world') :
    wp (nocodb faults).contract (listAll tableId filter fields) post world := by
  refine wp_call_nocodb hfail fun _ earlier _ hearlier => ?_
  simp only [answer, hearlier.rows, hselect]
  exact hfound earlier hearlier

theorem wp_create {tableId : JsString} {data : Payload}
    {post : Except Exception NocoRecord → World → Prop}
    (hfail : faults = true → ∀ world', Unchanged world world' → post (.error .upstream) world')
    (hcreated : ∀ (earlier : World) (row : Row) (h : row.id ∉ (world.rows tableId).rows.map Row.id),
      row.cells = toCells data → Unchanged world earlier →
      post (.ok (flattenRecord none row))
        (earlier.setTable tableId ((world.rows tableId).insert row h))) :
    wp (nocodb faults).contract (create tableId data) post world := by
  refine wp_call_nocodb hfail fun choice earlier hlegal hearlier => ?_
  have hfresh : 0 < choice.newId ∧ choice.newId ∉ (world.rows tableId).rows.map Row.id := by
    simp only [Choice.legal, Bool.and_eq_true, Bool.not_eq_true', List.contains_eq_mem,
      decide_eq_false_iff_not, decide_eq_true_eq] at hlegal
    exact hlegal.2
  have hpost := hcreated earlier ⟨choice.newId, hfresh.1, toCells data⟩ hfresh.2 rfl hearlier
  simp only [answer, hearlier.rows]
  rw [dif_pos hfresh]
  exact hpost

theorem wp_update {tableId : JsString} {row : Row} {data : Payload}
    {post : Except Exception NocoRecord → World → Prop}
    (hmem : row ∈ (world.rows tableId).rows)
    (hfail : faults = true → ∀ world', Unchanged world world' → post (.error .upstream) world')
    (hupdated : ∀ earlier, Unchanged world earlier →
      post (.ok (flattenRecord none (row.patch data)))
        (earlier.setTable tableId ((world.rows tableId).update (.ofNat row.id) data))) :
    wp (nocodb faults).contract (update tableId (.ofNat row.id) data) post world := by
  refine wp_call_nocodb hfail fun _ earlier _ hearlier => ?_
  have hfind := (Table.find_ofNat_eq_some_iff _ _ _).mpr ⟨hmem, rfl⟩
  simp only [answer, hearlier.rows, hfind]
  exact hupdated earlier hearlier

theorem wp_delete {tableId : JsString} {row : Row} {post : Except Exception Unit → World → Prop}
    (hmem : row ∈ (world.rows tableId).rows)
    (hfail : faults = true → ∀ world', Unchanged world world' → post (.error .upstream) world')
    (hdeleted : ∀ earlier, Unchanged world earlier →
      post (.ok ())
        (earlier.setTable tableId ((world.rows tableId).delete (.ofNat row.id)))) :
    wp (nocodb faults).contract (delete tableId (.ofNat row.id)) post world := by
  refine wp_call_nocodb hfail fun _ earlier _ hearlier => ?_
  have hfind := (Table.find_ofNat_eq_some_iff _ _ _).mpr ⟨hmem, rfl⟩
  simp only [answer, hearlier.rows, hfind]
  exact hdeleted earlier hearlier

/-- A synchronous step never fails. -/
theorem wp_call_synchronous {op : Op} {post : Except Exception (Res op) → World → Prop}
    (hop : op.isRequest = false)
    (hanswer : ∀ choice earlier, Unchanged world earlier →
      post (answer choice earlier op).1 (answer choice earlier op).2) :
    wp (nocodb faults).contract (Program.call op) post world := by
  refine ⟨trivial, ?_⟩
  rintro result world' ⟨choice, -, hrespond⟩
  simp only [nocodb, respond, hop, Bool.and_false, Bool.false_eq_true, if_false] at hrespond
  have hpost := hanswer choice _ (Unchanged.advance world choice.elapsed)
  rw [hrespond] at hpost
  exact hpost

theorem wp_read_find {tableId : JsString} {recordId : JsNumber}
    {post : Except Exception (Option NocoRecord) → World → Prop}
    (hfail : faults = true → ∀ world', Unchanged world world' → post (.error .upstream) world')
    (hfound : ∀ world', Unchanged world world' →
      post (.ok (((world.rows tableId).find recordId).map (flattenRecord none))) world') :
    wp (nocodb faults).contract (read tableId recordId) post world := by
  refine wp_call_nocodb hfail fun _ earlier _ hearlier => ?_
  simp only [answer, hearlier.rows]
  exact hfound earlier hearlier

theorem wp_read {tableId : JsString} {recordId : JsNumber}
    {post : Except Exception (Option NocoRecord) → World → Prop}
    (hfail : faults = true → ∀ world', Unchanged world world' → post (.error .upstream) world')
    (hfound : ∀ record world', Unchanged world world' → post (.ok record) world') :
    wp (nocodb faults).contract (read tableId recordId) post world :=
  wp_read_find hfail fun world' h => hfound _ world' h

theorem wp_clearCache {userId : Option JsNumber} {post : Except Exception Unit → World → Prop}
    (hcleared : ∀ earlier, Unchanged world earlier →
      post (.ok ()) (earlier.setCache (world.cache.clear userId))) :
    wp (nocodb faults).contract (clearCache userId) post world := by
  refine wp_call_synchronous rfl fun _ earlier hearlier => ?_
  simp only [answer, hearlier.cache]
  exact hcleared earlier hearlier

theorem wp_newDate {post : Except Exception JsString → World → Prop}
    (hdate : ∀ text world', Unchanged world world' → post (.ok text) world') :
    wp (nocodb faults).contract newDate post world :=
  wp_call_synchronous rfl fun choice earlier hearlier => hdate choice.text earlier hearlier

theorem wp_hashPassword {password : JsString}
    {post : Except Exception JsString → World → Prop}
    (hhash : ∀ text world', Unchanged world world' → post (.ok text) world') :
    wp (nocodb faults).contract (hashPassword password) post world :=
  wp_call_synchronous rfl fun choice earlier hearlier => hhash choice.text earlier hearlier

theorem wp_assertTableRef {table : Option TableMeta}
    {post : Except Exception TableMeta → World → Prop}
    (hmissing : post (.error (.notFound (js "Required table reference is missing"))) world)
    (hfound : ∀ found, table = some found → post (.ok found) world) :
    wp (nocodb faults).contract (assertTableRef table) post world := by
  cases table with
  | none => exact hmissing
  | some found => exact hfound found rfl

/-- A service that needs a system table goes on with the one its name resolves to. -/
theorem wp_requiredTable {α : Type} {tablePrefix tableName : JsString} {first : World}
    {next : TableMeta → Service α} {post : Except Exception α → World → Prop}
    (hfirst : Unchanged first world)
    (hfail : ∀ (exception : Exception) (world' : World), exception.isConflict = false →
      Unchanged first world' → post (.error exception) world')
    (hnext : ∀ found world', resolve tablePrefix first.tables tableName = some found →
      Unchanged first world' → wp (nocodb faults).contract (next found) post world') :
    wp (nocodb faults).contract
      (getTableByName tablePrefix tableName >>= fun table => assertTableRef table >>= next)
      post world := by
  rw [wp_bind]
  refine wp_getTableByName (fun _ _ h => hfail _ _ rfl (hfirst.trans h)) fun world' h => ?_
  have hunchanged := hfirst.trans h
  rw [onOk_ok, wp_bind]
  refine wp_assertTableRef (hfail _ _ rfl hunchanged) fun found hresolve => ?_
  rw [hfirst.tables] at hresolve
  exact hnext found world' hresolve hunchanged

/-- Where no request fails, a service that needs a system table stops only if the name does
not resolve. -/
theorem wp_requiredTable_faultless {α : Type} {tablePrefix tableName : JsString} {first : World}
    {next : TableMeta → Service α} {post : Except Exception α → World → Prop}
    (hfirst : Unchanged first world)
    (hmissing : resolve tablePrefix first.tables tableName = none → ∀ exception world',
      Unchanged first world' → post (.error exception) world')
    (hnext : ∀ found world', resolve tablePrefix first.tables tableName = some found →
      Unchanged first world' → wp (nocodb false).contract (next found) post world') :
    wp (nocodb false).contract
      (getTableByName tablePrefix tableName >>= fun table => assertTableRef table >>= next)
      post world := by
  rw [wp_bind]
  refine wp_getTableByName (fun hfaults => by contradiction) fun world' h => ?_
  have hunchanged := hfirst.trans h
  rw [onOk_ok, wp_bind, hfirst.tables]
  cases hresolve : resolve tablePrefix first.tables tableName with
  | none => exact hmissing hresolve _ world' hunchanged
  | some found => exact hnext found world' hresolve hunchanged

end

end Store
end NocoMiddleware
