import NocoMiddleware.Store.PageDto
import NocoMiddleware.Store.PagedListing

/-!
# Repositories

`findMany` of `base.repository.ts`: the page of the records of a table that the options ask for,
with the number of all of them.
-/

namespace NocoMiddleware
namespace Store

open NocoMiddleware.Js NocoMiddleware.Foundation

/-- `findMany`, whose records keep the form in which `list` returns them. -/
def findMany (tableId : JsString) (pageOptionsDto : PageOptionsDto) :
    Paging (PageDto NocoRecord) := do
  let result ← listWith tableId
    { filter := none
      sort := none
      fields := none
      limit := pageOptionsDto.take
      offset := some pageOptionsDto.skip
      withCount := true }
  let count := (result.pageInfo.map NocoPageInfo.totalRows).getD 0
  return ⟨result.list, PageMetaDto.of pageOptionsDto count⟩

/-- The records of a table, in the order in which NocoDB lists them. -/
def recordsOf (order : SortOrder) (world : World) (tableId : JsString) : List NocoRecord :=
  (order.sortRows [] (world.rows tableId).rows).map (flattenRecord none)

section

variable {order : SortOrder} {world : World} {tableId : JsString} {take page : Nat}

/-- The page of a list of records is cut from the rows that they show. -/
theorem pageOf_recordsOf (order : SortOrder) (world : World) (tableId : JsString)
    (take page : Nat) :
    pageOf (recordsOf order world tableId) take page =
      ⟨(slice (order.sortRows [] (world.rows tableId).rows)
          (PageOptionsDto.skip ⟨some page, some take⟩) take).map (flattenRecord none),
        PageMetaDto.of ⟨some page, some take⟩ (world.rows tableId).rows.length⟩ := by
  rw [pageOf, recordsOf, ← map_slice, List.length_map, (order.perm _ _).length_eq]

/-- Where no request fails, `findMany` answers with the page and leaves the store as it is. -/
theorem wp_findMany :
    wp (pagedNocodb order false).contract (findMany tableId ⟨some page, some take⟩)
      (fun result final =>
        result = .ok (pageOf (recordsOf order world tableId) take page) ∧ Unchanged world final)
      world := by
  have hselect : matchingRows world tableId none = some (world.rows tableId).rows := rfl
  rw [findMany, wp_bind]
  apply wp_listWith rfl hselect
  intro final h
  constructor
  · rw [pageOf_recordsOf]
    rfl
  · exact h

/-- Whatever page is asked for, a run of `findMany` returns that page of the records. -/
theorem findMany_page {result : Except Exception (PageDto NocoRecord)} {final : World}
    (hexec : Exec (pagedNocodb order false).contract (findMany tableId ⟨some page, some take⟩)
      world result final) :
    result = .ok (pageOf (recordsOf order world tableId) take page) ∧ Unchanged world final :=
  wp_sound wp_findMany hexec

/-- On a store that does not change, all pages together show every record of the table once. -/
theorem findMany_lists_all {pages : Nat → PageDto NocoRecord} (htake : 0 < take)
    (hpages : ∀ page, 1 ≤ page → ∃ world' final, Unchanged world world' ∧
      Exec (pagedNocodb order false).contract (findMany tableId ⟨some page, some take⟩)
        world' (.ok (pages page)) final) :
    ((List.range' 1 (pages 1).pageMeta.pageCount).flatMap fun page => (pages page).data) =
      recordsOf order world tableId := by
  have hpage : ∀ page, 1 ≤ page →
      pages page = pageOf (recordsOf order world tableId) take page := by
    intro page hcounted
    obtain ⟨world', final, hunchanged, hexec⟩ := hpages page hcounted
    have hresult := (findMany_page hexec).1
    rw [recordsOf, hunchanged.rows] at hresult
    exact Except.ok.inj hresult
  rw [hpage 1 le_rfl, pageCount_pageOf htake]
  refine Eq.trans ?_ (concatenate_pageOf htake)
  apply List.flatMap_congr
  intro page hmem
  rw [hpage page (List.mem_range'_1.mp hmem).1]

end

end Store
end NocoMiddleware
