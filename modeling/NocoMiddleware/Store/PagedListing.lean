import NocoMiddleware.Foundation.Lifting
import NocoMiddleware.Store.FullListing
import NocoMiddleware.Store.NocoDBService

/-!
# Sorted listings with a count

`list` of `nocodb.service.ts` with a sort, an offset and a count.  `PageOp` are its requests
besides the steps of the services; `pagedNocodb` answers both on the same world.  The order of
the records is the one of NocoDB, which is fixed for given records.
-/

namespace NocoMiddleware
namespace Store

open NocoMiddleware.Js NocoMiddleware.Filter NocoMiddleware.Tables NocoMiddleware.Foundation

/-! ## The requests -/

/-- The requests of a sorted listing. -/
inductive PageOp where
  | list (request : ListRequest)
  | count (tableId : JsString) (filter : Option JsString)
  deriving DecidableEq

/-- Their answers. -/
@[reducible] def PageRes : PageOp → Type
  | .list _ => List NocoRecord
  | .count _ _ => Nat

/-- Programs with sorted listings. -/
abbrev Paging := Program (Op ⊕ PageOp) (Sum.elim Res PageRes) Exception

/-- How NocoDB orders the records of a listing: by the field of the sort, where it holds
numbers. -/
structure SortOrder where
  sortRows : List SortEntry → List Row → List Row
  perm : ∀ sort rows, (sortRows sort rows).Perm rows
  ascending : ∀ field rows, (sortRows [⟨field, false⟩] rows).Pairwise fun first second =>
    ∀ n m : Nat, first.cell field = .number (.ofNat n) →
      second.cell field = .number (.ofNat m) → n ≤ m

/-- The rows of a table that match a filter, if NocoDB can read it. -/
def matchingRows (world : World) (tableId : JsString) (filter : Option JsString) :
    Option (List Row) :=
  match filter with
  | none => some (world.rows tableId).rows
  | some filter => selectRows filter (world.rows tableId).rows

/-- The answer to a request that does not fail. -/
def pageAnswer (order : SortOrder) (world : World) : (op : PageOp) → Except Exception (PageRes op)
  | .list request =>
      match matchingRows world request.tableId request.filter with
      | none => .error .upstream
      | some rows =>
          let sorted := order.sortRows (request.sort.getD []) rows
          .ok ((slice sorted (request.offset.getD 0) (request.limit.getD defaultLimit)).map
            (flattenRecord request.fields))
  | .count tableId filter =>
      match matchingRows world tableId filter with
      | none => .error .upstream
      | some rows => .ok rows.length

/-- The choices that NocoDB may make. -/
def Choice.legalPaged (faults : Bool) (choice : Choice) (world : World) : Op ⊕ PageOp → Bool
  | .inl op => choice.legal faults op world
  | .inr _ => !choice.fails || faults

/-- The answer to a request. -/
def pagedRespond (order : SortOrder) (choice : Choice) (world : World) :
    (op : Op ⊕ PageOp) → Except Exception (Sum.elim Res PageRes op) × World
  | .inl op => respond choice op world
  | .inr op =>
      if choice.fails then (.error .upstream, world.advance choice.elapsed)
      else (pageAnswer order (world.advance choice.elapsed) op, world.advance choice.elapsed)

/-- NocoDB with sorted listings as an environment of programs. -/
def pagedNocodb (order : SortOrder) (faults : Bool) :
    System (Op ⊕ PageOp) (Sum.elim Res PageRes) Exception World Choice where
  legal choice op world := choice.legalPaged faults world op = true
  respond choice op world := pagedRespond order choice world op

instance (order : SortOrder) (faults : Bool) (choice : Choice) (op : Op ⊕ PageOp)
    (world : World) : Decidable ((pagedNocodb order faults).legal choice op world) :=
  inferInstanceAs (Decidable (choice.legalPaged faults world op = true))

/-! ## The methods -/

/-- `NocoPageInfo`. -/
structure NocoPageInfo where
  totalRows : Nat
  pageSize : Option Nat

/-- `NocoRecordListResponse`. -/
structure NocoRecordListResponse where
  list : List NocoRecord
  pageInfo : Option NocoPageInfo

/-- `count`. -/
def count (tableId : JsString) (filter : Option JsString) : Paging Nat :=
  .perform (Sum.inr (.count tableId (filter.filter fun filter => filter ≠ []))) Program.done

/-- `list`. -/
def listWith (tableId : JsString) (options : FilterOptions) : Paging NocoRecordListResponse := do
  let list ← (.perform (Sum.inr (.list (listRequest tableId options))) Program.done :
    Paging (List NocoRecord))
  if options.withCount then
    let totalRows ← count tableId options.filter
    return ⟨list, some ⟨totalRows, options.limit⟩⟩
  else return ⟨list, none⟩

/-! ## Rules -/

section

variable {order : SortOrder} {faults : Bool} {world : World}

/-- The whole world is what the services act on. -/
def wholeWorld : Focus World World where
  get world := world
  set _ part := part
  get_set _ _ := rfl
  set_get _ := rfl
  set_set _ _ _ := rfl

theorem pagedNocodb_extends :
    (pagedNocodb order faults).contract.Extends (nocodb faults).contract wholeWorld := by
  constructor
  · exact fun _ _ _ => trivial
  · intro op world answer world' hstep
    exact ⟨world', hstep, rfl⟩

/-- A program of the services does what it does without sorted listings. -/
theorem wp_lift_paged {α : Type} {program : Service α} {post : Except Exception α → World → Prop}
    (h : wp (nocodb faults).contract program post world) :
    wp (pagedNocodb order faults).contract program.lift post world :=
  wp_lift pagedNocodb_extends h

/-- A request that does not fail is answered, after some time. -/
theorem wp_pageRequest {op : PageOp} {post : Except Exception (PageRes op) → World → Prop}
    (hanswer : ∀ earlier, Unchanged world earlier → post (pageAnswer order earlier op) earlier) :
    wp (pagedNocodb order false).contract (.perform (Sum.inr op) Program.done) post world := by
  refine ⟨trivial, ?_⟩
  rintro result world' ⟨choice, hlegal, hrespond⟩
  have hfails : choice.fails = false := by
    have hallowed : (!choice.fails || false) = true := hlegal
    simpa using hallowed
  have hstep : (pageAnswer order (world.advance choice.elapsed) op, world.advance choice.elapsed) =
      (result, world') := by
    rw [← hrespond]
    show _ = pagedRespond order choice world (.inr op)
    rw [pagedRespond, hfails, if_neg Bool.false_ne_true]
    rfl
  obtain ⟨rfl, rfl⟩ := Prod.mk.inj hstep
  exact hanswer _ (Unchanged.advance world choice.elapsed)

theorem matchingRows_of_unchanged {world' : World} (h : Unchanged world world')
    (tableId : JsString) (filter : Option JsString) :
    matchingRows world' tableId filter = matchingRows world tableId filter := by
  unfold matchingRows
  rw [h.rows]

/-- A listing with a count: a slice of the sorted rows, and the number of them. -/
theorem wp_listWith {tableId : JsString} {options : FilterOptions} {rows : List Row}
    {post : Except Exception NocoRecordListResponse → World → Prop}
    (hcount : options.withCount = true)
    (hselect : matchingRows world tableId (options.filter.filter fun filter => filter ≠ []) =
      some rows)
    (hlisted : ∀ world', Unchanged world world' →
      post (.ok ⟨(slice (order.sortRows ((listQuery tableId options).sort.getD []) rows)
          (options.offset.getD 0) (options.limit.getD defaultLimit)).map
            (flattenRecord options.fields),
        some ⟨rows.length, options.limit⟩⟩) world') :
    wp (pagedNocodb order false).contract (listWith tableId options) post world := by
  rw [listWith, wp_bind]
  apply wp_pageRequest
  intro world₁ h₁
  have hlist : matchingRows world₁ tableId (listQuery tableId options).filter = some rows :=
    (matchingRows_of_unchanged h₁ _ _).trans hselect
  have hanswer : pageAnswer order world₁ (.list (listRequest tableId options)) =
      .ok ((slice (order.sortRows ((listQuery tableId options).sort.getD []) rows)
        (options.offset.getD 0) (options.limit.getD defaultLimit)).map
          (flattenRecord options.fields)) := by
    show (match matchingRows world₁ tableId (listQuery tableId options).filter with
      | none => _
      | some rows => _) = _
    rw [hlist]
    rfl
  rw [hanswer, onOk_ok, if_pos hcount, wp_bind]
  apply wp_pageRequest
  intro world₂ h₂
  have h := h₁.trans h₂
  have hmatching := (matchingRows_of_unchanged h tableId
    (options.filter.filter fun filter => filter ≠ [])).trans hselect
  rw [pageAnswer, hmatching]
  exact hlisted world₂ h

end

end Store
end NocoMiddleware
