import NocoMiddleware.Foundation.Paging

/-!
# Pages of a listing

`PageOptionsDto`, `PageMetaDto` and `PageDto`: what a caller asks for, what it is told about
the pages, and a page.
-/

namespace NocoMiddleware
namespace Store

open NocoMiddleware.Foundation

/-- `value || other`, on a number that may be missing. -/
def orNumber (value : Option Nat) (other : Nat) : Nat :=
  (value.filter fun number => number ≠ 0).getD other

/-- `PageOptionsDto`. -/
structure PageOptionsDto where
  page : Option Nat
  take : Option Nat

/-- `new PageOptionsDto()`. -/
def PageOptionsDto.initial : PageOptionsDto where
  page := some 1
  take := some 10

/-- `skip`. -/
def PageOptionsDto.skip (options : PageOptionsDto) : Nat :=
  (orNumber options.page 1 - 1) * orNumber options.take 10

/-- `PageMetaDto`. -/
structure PageMetaDto where
  page : Nat
  take : Nat
  itemCount : Nat
  pageCount : Nat
  hasPreviousPage : Bool
  hasNextPage : Bool
  deriving DecidableEq

/-- `new PageMetaDto({ pageOptionsDto, itemCount })`. -/
def PageMetaDto.of (pageOptionsDto : PageOptionsDto) (itemCount : Nat) : PageMetaDto :=
  let page := orNumber pageOptionsDto.page 1
  let take := orNumber pageOptionsDto.take 10
  -- `Math.ceil(itemCount / take)`
  let count := Foundation.pageCount itemCount take
  { page := page
    take := take
    itemCount := itemCount
    pageCount := count
    hasPreviousPage := page > 1
    hasNextPage := page < count }

/-- `PageDto`, with `meta` as `pageMeta`. -/
structure PageDto (α : Type) where
  data : List α
  pageMeta : PageMetaDto
  deriving DecidableEq

theorem orNumber_some {number : Nat} (h : 0 < number) (other : Nat) :
    orNumber (some number) other = number := by
  rw [orNumber, Option.filter_some, if_pos (by simpa using Nat.ne_of_gt h), Option.getD_some]

/-- The page of a list of items: those from `skip` on, at most `take` of them. -/
def pageOf {α : Type} (items : List α) (take page : Nat) : PageDto α where
  data := slice items (PageOptionsDto.skip ⟨some page, some take⟩) take
  pageMeta := PageMetaDto.of ⟨some page, some take⟩ items.length

section

variable {α : Type} {items : List α} {take : Nat}

theorem skip_eq {page : Nat} (hpage : 0 < page) (htake : 0 < take) :
    PageOptionsDto.skip ⟨some page, some take⟩ = (page - 1) * take := by
  rw [PageOptionsDto.skip, orNumber_some hpage, orNumber_some htake]

/-- The slice from `skip` on is a page. -/
theorem slice_skip (items : List α) {page : Nat} (hpage : 0 < page) (htake : 0 < take) :
    slice items (PageOptionsDto.skip ⟨some page, some take⟩) take =
      pageAt items take (page - 1) := by
  rw [skip_eq hpage htake]
  rfl

/-- Every page is told the same number of pages. -/
theorem PageMetaDto.pageCount_of (htake : 0 < take) (page itemCount : Nat) :
    (PageMetaDto.of ⟨some page, some take⟩ itemCount).pageCount =
      Foundation.pageCount itemCount take := by
  show Foundation.pageCount itemCount (orNumber (some take) 10) = _
  rw [orNumber_some htake]

/-- A page is a counted one exactly if some item lies on it. -/
theorem le_pageCount_iff {page : Nat} (hpage : 0 < page) (htake : 0 < take) :
    page ≤ Foundation.pageCount items.length take ↔
      PageOptionsDto.skip ⟨some page, some take⟩ < items.length := by
  have hindex : page ≤ Foundation.pageCount items.length take ↔
      page - 1 < Foundation.pageCount items.length take := by omega
  rw [skip_eq hpage htake, hindex]
  exact lt_pageCount_iff htake

/-- The pages of a list tile it: one after the other they are the list, none of them is empty and
the ones after them are, and each is told whether others stand beside it. -/
structure PagesTile (items : List α) (take : Nat) : Prop where
  counted : ∀ page, (pageOf items take page).pageMeta.pageCount =
    (pageOf items take 1).pageMeta.pageCount
  concatenate : ((List.range' 1 (pageOf items take 1).pageMeta.pageCount).flatMap fun page =>
    (pageOf items take page).data) = items
  nonempty : ∀ page, 1 ≤ page → page ≤ (pageOf items take 1).pageMeta.pageCount →
    (pageOf items take page).data ≠ []
  beyond : ∀ page, (pageOf items take 1).pageMeta.pageCount < page →
    (pageOf items take page).data = []
  next : ∀ page, 1 ≤ page → ((pageOf items take page).pageMeta.hasNextPage = true ↔
    PageOptionsDto.skip ⟨some page, some take⟩ + take < items.length)
  previous : ∀ page, 1 ≤ page → ((pageOf items take page).pageMeta.hasPreviousPage = true ↔
    0 < PageOptionsDto.skip ⟨some page, some take⟩)

theorem pageCount_pageOf (htake : 0 < take) (page : Nat) :
    (pageOf items take page).pageMeta.pageCount = Foundation.pageCount items.length take :=
  PageMetaDto.pageCount_of htake page items.length

theorem concatenate_pageOf (htake : 0 < take) :
    ((List.range' 1 (Foundation.pageCount items.length take)).flatMap fun page =>
      (pageOf items take page).data) = items := by
  have hpage : ∀ index, (pageOf items take (1 + index)).data = pageAt items take index := by
    intro index
    show slice items (PageOptionsDto.skip ⟨some (1 + index), some take⟩) take = _
    rw [slice_skip items (by omega) htake, Nat.add_sub_cancel_left]
  rw [List.range'_eq_map_range, List.flatMap_map]
  simp only [hpage]
  exact flatMap_pageAt items htake

/-- The items that follow a page are the ones on the next page. -/
theorem hasNextPage_pageOf {page : Nat} (hpage : 0 < page) (htake : 0 < take) :
    (pageOf items take page).pageMeta.hasNextPage = true ↔
      PageOptionsDto.skip ⟨some page, some take⟩ + take < items.length := by
  have hflag : (pageOf items take page).pageMeta.hasNextPage = true ↔
      page < Foundation.pageCount items.length take := by
    show decide (orNumber (some page) 1 < Foundation.pageCount _ (orNumber (some take) 10)) = _ ↔ _
    rw [orNumber_some hpage, orNumber_some htake, decide_eq_true_iff]
  have hnext : (page - 1) * take + take = page * take := by
    rw [← Nat.succ_mul, Nat.succ_eq_add_one, Nat.sub_add_cancel hpage]
  rw [hflag, lt_pageCount_iff htake, skip_eq hpage htake, hnext]

theorem hasPreviousPage_pageOf {page : Nat} (hpage : 0 < page) (htake : 0 < take) :
    (pageOf items take page).pageMeta.hasPreviousPage = true ↔
      0 < PageOptionsDto.skip ⟨some page, some take⟩ := by
  have hflag : (pageOf items take page).pageMeta.hasPreviousPage = true ↔ 1 < page := by
    show decide (orNumber (some page) 1 > 1) = true ↔ _
    rw [orNumber_some hpage, decide_eq_true_iff]
  rw [hflag, skip_eq hpage htake, Nat.mul_pos_iff_of_pos_right htake]
  omega

/-- Pages of at least one item tile the list. -/
theorem pages_tile (items : List α) {take : Nat} (htake : 0 < take) : PagesTile items take := by
  constructor
  · intro page
    rw [pageCount_pageOf htake, pageCount_pageOf htake]
  · rw [pageCount_pageOf htake]
    exact concatenate_pageOf htake
  · intro page hpage hcounted hempty
    rw [pageCount_pageOf htake, le_pageCount_iff hpage htake] at hcounted
    have hlength := congrArg List.length hempty
    rw [pageOf, length_slice] at hlength
    simp only [List.length_nil] at hlength
    omega
  · intro page hbeyond
    rw [pageCount_pageOf htake] at hbeyond
    apply slice_eq_nil
    by_contra hwithin
    have hcounted : page ≤ Foundation.pageCount items.length take :=
      (le_pageCount_iff (Nat.zero_lt_of_lt hbeyond) htake).mpr (Nat.lt_of_not_le hwithin)
    omega
  · intro page hpage
    exact hasNextPage_pageOf hpage htake
  · intro page hpage
    exact hasPreviousPage_pageOf hpage htake

/-- Seven items on three pages. -/
theorem pages_tile_seven : PagesTile (List.range 7) 3 :=
  pages_tile (List.range 7) (by decide)

end

end Store
end NocoMiddleware
