import Mathlib.Data.List.Basic
import Mathlib.Tactic.Common

/-!
# Pages of a list

A listing is asked for in slices: `slice` is what lies in a list from an offset on, up to a
limit.  The slices at the multiples of a size tile the list, and `pageCount` of them are
enough; all but the last are full.
-/

namespace NocoMiddleware
namespace Foundation

variable {α β : Type}

/-- The elements from an offset on, at most `limit` of them. -/
def slice (items : List α) (offset limit : Nat) : List α :=
  (items.drop offset).take limit

/-- The number of pages of a size that hold `count` elements. -/
def pageCount (count size : Nat) : Nat :=
  (count + size - 1) / size

/-- The elements on the page of an index, which counts from zero. -/
def pageAt (items : List α) (size index : Nat) : List α :=
  slice items (index * size) size

theorem length_slice (items : List α) (offset limit : Nat) :
    (slice items offset limit).length = min limit (items.length - offset) := by
  simp [slice]

theorem slice_zero (items : List α) (limit : Nat) : slice items 0 limit = items.take limit :=
  rfl

theorem slice_eq_nil {items : List α} {offset limit : Nat} (h : items.length ≤ offset) :
    slice items offset limit = [] := by
  rw [slice, List.drop_eq_nil_of_le h, List.take_nil]

theorem map_slice (f : α → β) (items : List α) (offset limit : Nat) :
    (slice items offset limit).map f = slice (items.map f) offset limit := by
  rw [slice, slice, List.map_take, List.map_drop]

/-- A slice after another one. -/
theorem take_append_slice (items : List α) (offset limit : Nat) :
    items.take offset ++ slice items offset limit = items.take (offset + limit) := by
  rw [slice, List.take_add]

/-- The first pages, one after the other, are the beginning of the list. -/
theorem flatMap_pageAt_range (items : List α) (size count : Nat) :
    (List.range count).flatMap (pageAt items size) = items.take (count * size) := by
  induction count with
  | zero => simp
  | succ count ih =>
      rw [List.range_succ, List.flatMap_append, ih, List.flatMap_singleton, pageAt,
        take_append_slice, Nat.succ_mul]

/-! ## As many pages as needed -/

theorem le_pageCount_mul {count size : Nat} (hsize : 0 < size) :
    count ≤ pageCount count size * size := by
  have hdiv := Nat.div_add_mod (count + size - 1) size
  have hmod := Nat.mod_lt (count + size - 1) hsize
  rw [pageCount, Nat.mul_comm]
  omega

/-- A page lies within the list exactly if it is one of the counted ones. -/
theorem lt_pageCount_iff {count size index : Nat} (hsize : 0 < size) :
    index < pageCount count size ↔ index * size < count := by
  rw [pageCount, Nat.lt_iff_add_one_le, Nat.le_div_iff_mul_le hsize, Nat.succ_mul]
  omega

/-- The pages are the list. -/
theorem flatMap_pageAt (items : List α) {size : Nat} (hsize : 0 < size) :
    (List.range (pageCount items.length size)).flatMap (pageAt items size) = items := by
  rw [flatMap_pageAt_range]
  exact List.take_of_length_le (le_pageCount_mul hsize)

/-- A page that another one follows is full. -/
theorem length_pageAt {items : List α} {size index : Nat} (hsize : 0 < size)
    (hlast : index + 1 < pageCount items.length size) :
    (pageAt items size index).length = size := by
  rw [lt_pageCount_iff hsize, Nat.succ_mul] at hlast
  rw [pageAt, length_slice]
  omega

end Foundation
end NocoMiddleware
