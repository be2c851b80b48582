import NocoMiddleware.Foundation.Paging
import NocoMiddleware.Store.Record

/-!
# Listing all records page by page

`list` and `listAll` of `nocodb.service.ts`, with the request that `list` sends.  The server
answers from records that do not change, and has a page limit of its own.  `listAll` takes a
page that is shorter than it asked for as the last one.
-/

namespace NocoMiddleware
namespace Store

open NocoMiddleware.Js NocoMiddleware.Filter NocoMiddleware.Foundation

/-! ## The request of `list` -/

/-- `FilterOptions`. -/
structure FilterOptions where
  filter : Option JsString
  sort : Option JsString
  fields : Option (List JsString)
  limit : Option Nat
  offset : Option Nat
  withCount : Bool

/-- One entry of a sort. -/
structure SortEntry where
  field : JsString
  descending : Bool
  deriving DecidableEq

/-- `toV3Sort`, as the entries that the text holds. -/
def toV3Sort (sort : JsString) : List SortEntry :=
  let parts := ((sort.splitOn commaUnit).map trim).filter fun part => part ≠ []
  parts.map fun part =>
    let descending := part.head? = some hyphenUnit
    let name := if descending then part.tail else part
    ⟨if name = js "id" then primaryKeyField else name, descending⟩

example : toV3Sort (js "-age, id") = [⟨js "age", true⟩, ⟨js "Id", false⟩] := by decide

/-- What a list request asks for, whichever page of it. -/
structure ListQuery where
  tableId : JsString
  filter : Option JsString
  sort : Option (List SortEntry)
  deriving DecidableEq

/-- The request of `list`. -/
structure ListRequest extends ListQuery where
  fields : Option (List JsString)
  limit : Option Nat
  offset : Option Nat
  deriving DecidableEq

/-- The query of `list`: empty texts are left out. -/
def listQuery (tableId : JsString) (options : FilterOptions) : ListQuery where
  tableId := tableId
  filter := options.filter.filter fun filter => filter ≠ []
  sort := (options.sort.filter fun sort => sort ≠ []).map toV3Sort

/-- The request of `list`. -/
def listRequest (tableId : JsString) (options : FilterOptions) : ListRequest where
  toListQuery := listQuery tableId options
  fields := options.fields
  limit := options.limit
  offset := options.offset

/-! ## A server with a page limit -/

/-- A server whose records do not change: it knows an order of the records that match a query
and answers with at most `cap` of them. -/
structure ListServer where
  cap : Nat
  matching : ListQuery → List Row
  cap_pos : 0 < cap

/-- The number of records without a limit. -/
def defaultLimit : Nat := 25

namespace ListServer

variable (server : ListServer)

/-- The records of the answer. -/
def answer (request : ListRequest) : List Row :=
  slice (server.matching request.toListQuery) (request.offset.getD 0)
    (min (request.limit.getD defaultLimit) server.cap)

/-- `list`, which `listAll` calls without `withCount`. -/
def list (tableId : JsString) (options : FilterOptions) : List NocoRecord :=
  let request := listRequest tableId options
  (server.answer request).map (flattenRecord request.fields)

/-- The loop of `listAll` from an offset on, if it ends within the given number of rounds. -/
def listAllFrom (tableId : JsString) (options : FilterOptions) (pageSize : Nat) :
    Nat → Nat → List NocoRecord → Option (List NocoRecord)
  | 0, _, _ => none
  | rounds + 1, offset, records =>
      let page := server.list tableId { options with limit := some pageSize, offset := some offset }
      let records := records ++ page
      if page.length < pageSize then some records
      else listAllFrom tableId options pageSize rounds (offset + pageSize) records

/-- `listAll`, if it ends within the given number of rounds. -/
def listAll (rounds : Nat) (tableId : JsString) (options : FilterOptions) (pageSize : Nat) :
    Option (List NocoRecord) :=
  server.listAllFrom tableId options pageSize rounds 0 []

/-- All records that match, in the order of the server. -/
def allMatching (tableId : JsString) (options : FilterOptions) : List NocoRecord :=
  (server.matching (listQuery tableId options)).map (flattenRecord options.fields)

section

variable {server} {tableId : JsString} {options : FilterOptions} {pageSize : Nat}

/-- A page of `listAll`. -/
theorem list_page (offset : Nat) :
    server.list tableId { options with limit := some pageSize, offset := some offset } =
      slice (server.allMatching tableId options) offset (min pageSize server.cap) := by
  exact map_slice _ _ _ _

/-! ## The loop -/

/-- The result of the loop does not depend on the rounds it is given. -/
theorem listAllFrom_mono {rounds more offset : Nat} {records result : List NocoRecord}
    (h : server.listAllFrom tableId options pageSize rounds offset records = some result)
    (hmore : rounds ≤ more) :
    server.listAllFrom tableId options pageSize more offset records = some result := by
  induction rounds generalizing more offset records with
  | zero => contradiction
  | succ rounds ih =>
      obtain ⟨more, rfl⟩ := Nat.exists_eq_add_of_lt hmore
      rw [listAllFrom, list_page] at h ⊢
      by_cases hshort : (slice (server.allMatching tableId options) offset
          (min pageSize server.cap)).length < pageSize
      · rw [if_pos hshort] at h ⊢
        exact h
      · rw [if_neg hshort] at h ⊢
        exact ih h (Nat.le_add_right _ _)

/-- A server that does not cut pages: from any offset the loop adds what is left. -/
theorem listAllFrom_of_le_cap (hcap : pageSize ≤ server.cap)
    {rounds offset : Nat} (records : List NocoRecord)
    (hoffset : offset ≤ (server.allMatching tableId options).length)
    (hrounds : (server.allMatching tableId options).length < offset + rounds * pageSize) :
    server.listAllFrom tableId options pageSize rounds offset records =
      some (records ++ (server.allMatching tableId options).drop offset) := by
  -- on the rounds: each one moves on by a page, and the short page comes before they are used up
  induction rounds generalizing offset records with
  | zero => omega
  | succ rounds ih =>
      rw [Nat.succ_mul] at hrounds
      rw [listAllFrom, list_page, Nat.min_eq_left hcap]
      have hlength := length_slice (server.allMatching tableId options) offset pageSize
      by_cases hshort : (slice (server.allMatching tableId options) offset pageSize).length <
          pageSize
      · rw [if_pos hshort, slice, List.take_of_length_le]
        rw [List.length_drop]
        omega
      · rw [if_neg hshort, ih _ (by omega) (by omega), List.append_assoc, slice,
          ← List.drop_drop, List.take_append_drop]

/-- A server that cuts pages: the first one is taken for the last one. -/
theorem listAllFrom_of_cap_lt (hcap : server.cap < pageSize) (rounds : Nat) :
    server.listAll (rounds + 1) tableId options pageSize =
      some ((server.allMatching tableId options).take server.cap) := by
  have hshort : (slice (server.allMatching tableId options) 0 server.cap).length < pageSize := by
    rw [length_slice]
    omega
  rw [listAll, listAllFrom, list_page, Nat.min_eq_right hcap.le, if_pos hshort, slice_zero,
    List.nil_append]

/-- Enough rounds for any listing. -/
theorem listAll_eq {rounds : Nat}
    (hrounds : (server.allMatching tableId options).length < rounds * pageSize) :
    server.listAll rounds tableId options pageSize =
      if pageSize ≤ server.cap then some (server.allMatching tableId options)
      else some ((server.allMatching tableId options).take server.cap) := by
  split
  · next hcap =>
      rw [← Nat.zero_add (rounds * pageSize)] at hrounds
      rw [listAll, listAllFrom_of_le_cap hcap [] (Nat.zero_le _) hrounds, List.drop_zero,
        List.nil_append]
  · next hcap =>
      cases rounds with
      | zero => omega
      | succ rounds => exact listAllFrom_of_cap_lt (Nat.lt_of_not_le hcap) rounds

/-- `listAll` returns. -/
theorem exists_listAll (server : ListServer) (tableId : JsString) (options : FilterOptions)
    (hsize : 0 < pageSize) :
    ∃ rounds records, server.listAll rounds tableId options pageSize = some records := by
  refine ⟨(server.allMatching tableId options).length + 1, ?_⟩
  rw [listAll_eq]
  · split
    · exact ⟨_, rfl⟩
    · exact ⟨_, rfl⟩
  · have hmul := Nat.le_mul_of_pos_right (server.allMatching tableId options).length hsize
    rw [Nat.succ_mul]
    omega

/-- What `listAll` returns, however long it takes. -/
theorem listAll_returns (hsize : 0 < pageSize) {rounds : Nat} {records : List NocoRecord}
    (h : server.listAll rounds tableId options pageSize = some records) :
    records = if pageSize ≤ server.cap then server.allMatching tableId options
      else (server.allMatching tableId options).take server.cap := by
  have hlarge : (server.allMatching tableId options).length <
      max rounds ((server.allMatching tableId options).length + 1) * pageSize := by
    have hmul := Nat.le_mul_of_pos_right
      (max rounds ((server.allMatching tableId options).length + 1)) hsize
    omega
  have hmore := listAllFrom_mono h (Nat.le_max_left rounds
    ((server.allMatching tableId options).length + 1))
  have heq := listAll_eq hlarge
  rw [listAll, hmore, ← apply_ite some] at heq
  exact Option.some.inj heq

end

end ListServer

/-- `listAll` returns all matching records in order exactly if the server does not cut its pages,
or all records fit on the page that it cuts. -/
theorem listAll_complete_iff (server : ListServer) (tableId : JsString) (options : FilterOptions)
    {pageSize : Nat} (hsize : 0 < pageSize) :
    (∃ rounds, server.listAll rounds tableId options pageSize =
        some (server.allMatching tableId options)) ↔
      pageSize ≤ server.cap ∨ (server.allMatching tableId options).length ≤ server.cap := by
  constructor
  · rintro ⟨rounds, h⟩
    have heq := ListServer.listAll_returns hsize h
    by_cases hcap : pageSize ≤ server.cap
    · exact Or.inl hcap
    · right
      rw [if_neg hcap] at heq
      rw [heq, List.length_take]
      exact Nat.min_le_left _ _
  · intro h
    obtain ⟨rounds, records, hreturns⟩ := server.exists_listAll tableId options hsize
    refine ⟨rounds, ?_⟩
    rw [hreturns, ListServer.listAll_returns hsize hreturns]
    split
    · rfl
    · next hcap => rw [List.take_of_length_le (h.resolve_left hcap)]

/-- A server with three records for any query, and at most two of them on a page. -/
def twoPerPage : ListServer where
  cap := 2
  matching _ := [.ofCells 1 [], .ofCells 2 [], .ofCells 3 []]
  cap_pos := by decide

/-- All records, with no condition and in no particular order. -/
def everyRecord : FilterOptions where
  filter := none
  sort := none
  fields := none
  limit := none
  offset := none
  withCount := false

theorem listAll_complete_iff_two :
    ¬ (∃ rounds, twoPerPage.listAll rounds (js "roles") everyRecord 1000 =
        some (twoPerPage.allMatching (js "roles") everyRecord)) ∧
      ∃ rounds, twoPerPage.listAll rounds (js "roles") everyRecord 2 =
        some (twoPerPage.allMatching (js "roles") everyRecord) := by
  constructor
  · rw [listAll_complete_iff twoPerPage (js "roles") everyRecord (by decide)]
    decide
  · rw [listAll_complete_iff twoPerPage (js "roles") everyRecord (by decide)]
    decide

/-- The third record is never asked for: a page of two records is shorter than one of 1000. -/
theorem listAll_misses_record :
    ∃ records, twoPerPage.listAll 1 (js "roles") everyRecord 1000 = some records ∧
      (∀ rounds result, twoPerPage.listAll rounds (js "roles") everyRecord 1000 = some result →
        result = records) ∧
      flattenRecord none (.ofCells 3 []) ∈ twoPerPage.allMatching (js "roles") everyRecord ∧
      flattenRecord none (.ofCells 3 []) ∉ records := by
  have hcut : ¬ 1000 ≤ twoPerPage.cap := by decide
  refine ⟨(twoPerPage.allMatching (js "roles") everyRecord).take 2, by decide, ?_, by decide,
    by decide⟩
  intro rounds result h
  have heq := ListServer.listAll_returns (by decide) h
  rwa [if_neg hcut] at heq

end Store
end NocoMiddleware
