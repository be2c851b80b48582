import NocoMiddleware.Store.Changes

/-!
# Rows that cannot be told apart

Two rows are the same for every request if they have one key and the same fields; a write
may put such a row in the place of another.  `DiffersInOne` is what one write to a table
may do: it leaves the rows alone, adds one or changes some fields of one.
-/

namespace NocoMiddleware
namespace Store

open NocoMiddleware.Js NocoMiddleware.Filter NocoMiddleware.Tables NocoMiddleware.Foundation

/-- The rows have one key and the same fields. -/
structure SameRow (row row' : Row) : Prop where
  id : row'.id = row.id
  cell : ∀ title, row'.cell title = row.cell title

/-- The lists hold the same rows in the same order. -/
def SameRows (rows rows' : List Row) : Prop :=
  List.Forall₂ SameRow rows rows'

theorem SameRow.refl (row : Row) : SameRow row row :=
  ⟨rfl, fun _ => rfl⟩

theorem SameRow.trans {first second third : Row} (h : SameRow first second)
    (h' : SameRow second third) : SameRow first third :=
  ⟨h'.id.trans h.id, fun title => (h'.cell title).trans (h.cell title)⟩

theorem SameRows.refl (rows : List Row) : SameRows rows rows :=
  List.forall₂_same.mpr fun row _ => SameRow.refl row

theorem SameRows.trans {first second third : List Row} (h : SameRows first second)
    (h' : SameRows second third) : SameRows first third := by
  induction h generalizing third with
  | nil => exact h'
  | cons hrow _ ih =>
      cases h' with
      | cons hrow' hrest => exact .cons (hrow.trans hrow') (ih hrest)

theorem SameRows.mem {rows rows' : List Row} (h : SameRows rows rows') {row : Row}
    (hrow : row ∈ rows) : ∃ row' ∈ rows', SameRow row row' := by
  induction h with
  | nil => contradiction
  | cons hhead _ ih =>
      rcases List.mem_cons.mp hrow with rfl | hrest
      · exact ⟨_, List.mem_cons_self, hhead⟩
      · obtain ⟨row', hrow', hsame⟩ := ih hrest
        exact ⟨row', List.mem_cons_of_mem _ hrow', hsame⟩

theorem SameRows.of_mem {rows rows' : List Row} (h : SameRows rows rows') {row' : Row}
    (hrow' : row' ∈ rows') : ∃ row ∈ rows, SameRow row row' := by
  induction h with
  | nil => contradiction
  | cons hhead _ ih =>
      rcases List.mem_cons.mp hrow' with rfl | hrest
      · exact ⟨_, List.mem_cons_self, hhead⟩
      · obtain ⟨row, hrow, hsame⟩ := ih hrest
        exact ⟨row, List.mem_cons_of_mem _ hrow, hsame⟩

theorem written_written (value old : JsValue) :
    written value (written value old) = written value old := by
  unfold written
  cases value.toJson with
  | none => rfl
  | some cell => rfl

/-- Writing a payload once more changes nothing. -/
theorem sameRow_patch_patch (row : Row) {payload : Payload}
    (hkeys : (payload.map Prod.fst).Nodup) :
    SameRow (row.patch payload) ((row.patch payload).patch payload) := by
  refine ⟨rfl, fun title => ?_⟩
  by_cases hprimary : title = primaryKeyField
  · rw [hprimary]
    rfl
  · rw [Row.cell_patch _ hkeys hprimary, Row.cell_patch _ hkeys hprimary, written_written]

/-- Writing a payload to the row that it has created changes nothing. -/
theorem sameRow_patch_of_cells {row : Row} {payload : Payload}
    (hcells : row.cells = toCells payload) (hkeys : (payload.map Prod.fst).Nodup) :
    SameRow row (row.patch payload) := by
  refine ⟨rfl, fun title => ?_⟩
  by_cases hprimary : title = primaryKeyField
  · rw [hprimary]
    rfl
  · rw [Row.cell_patch _ hkeys hprimary, Row.cell_of_toCells hcells hkeys hprimary,
      written_written]

/-! ## Overwritten rows -/

/-- The rows of a table after a row was overwritten. -/
theorem rows_update {table : Table} {row : Row} {payload : Payload} (hrow : row ∈ table.rows) :
    (table.update (.ofNat row.id) payload).rows =
      table.rows.map fun other => if other = row then row.patch payload else other := by
  apply List.map_congr_left
  intro other hother
  by_cases heq : other = row
  · rw [heq, if_pos rfl, if_pos rfl]
  · rw [if_neg heq, if_neg]
    intro hid
    exact heq (Table.eq_of_id_eq hother hrow (JsNumber.ofNat_inj.mp hid).symm)

/-- A lookup in a table after a row was overwritten, for a property that this does not
change. -/
theorem find_update {table : Table} {row : Row} {payload : Payload} {p : Row → Prop}
    [DecidablePred p] (hrow : row ∈ table.rows) (hp : p (row.patch payload) ↔ p row) :
    (table.update (.ofNat row.id) payload).rows.find? (fun other => p other) =
      (table.rows.find? fun other => p other).map fun other =>
        if other = row then row.patch payload else other := by
  rw [rows_update hrow, find_replace hp]

/-- Overwriting a row with what it holds changes nothing. -/
theorem sameRows_update {table : Table} {row : Row} {payload : Payload} (hrow : row ∈ table.rows)
    (hsame : SameRow row (row.patch payload)) :
    SameRows table.rows (table.update (.ofNat row.id) payload).rows := by
  rw [rows_update hrow]
  apply List.forall₂_map_right_iff.mpr
  rw [List.forall₂_same]
  intro other _
  by_cases heq : other = row
  · rw [if_pos heq, heq]
    exact hsame
  · rw [if_neg heq]
    exact SameRow.refl other

theorem Changed.sameRows {tablePrefix : JsString} {table : SystemTable} {row : Row}
    {payload : Payload} {world world' : World}
    (h : Changed tablePrefix table (.patch row payload) world world')
    (hsame : SameRow row (row.patch payload)) (tableId : JsString) :
    SameRows (world.rows tableId).rows (world'.rows tableId).rows := by
  obtain ⟨found, earlier, content, -, hearlier, ⟨hrow, rfl⟩, rfl⟩ := h
  by_cases htable : tableId = found.id
  · rw [htable, World.rows_setTable_self]
    exact sameRows_update hrow hsame
  · rw [World.rows_setTable_of_ne _ _ htable, hearlier.rows]
    exact SameRows.refl _

/-! ## One write -/

/-- A write to a system table leaves all other tables alone. -/
theorem Changed.rows_of_ne {tablePrefix : JsString} {table : SystemTable} {change : Change}
    {world world' : World} (h : Changed tablePrefix table change world world')
    {tableId : JsString}
    (hne : ∀ found, resolve tablePrefix world.tables table.name = some found →
      found.id ≠ tableId) : world'.rows tableId = world.rows tableId := by
  obtain ⟨found, earlier, content, hfound, hearlier, -, rfl⟩ := h
  rw [World.rows_setTable_of_ne _ _ (Ne.symm (hne found hfound)), hearlier.rows]

/-- The rows after one write at most: one may be added, or some fields of one changed. -/
inductive DiffersInOne (titles : List JsString) (rows : List Row) : List Row → Prop where
  | same : DiffersInOne titles rows rows
  | added (row : Row) (hfresh : row.id ∉ rows.map Row.id) :
      DiffersInOne titles rows (rows ++ [row])
  | changed (row row' : Row) (hrow : row ∈ rows) (hid : row'.id = row.id)
      (hcells : ∀ title, title ∉ titles → row'.cell title = row.cell title) :
      DiffersInOne titles rows (rows.map fun other => if other = row then row' else other)

theorem Changed.differsInOne_of_insert {tablePrefix : JsString} {table : SystemTable} {row : Row}
    {world world' : World} (titles : List JsString)
    (h : Changed tablePrefix table (.insert row) world world') :
    DiffersInOne titles (systemRows tablePrefix world table)
      (systemRows tablePrefix world' table) := by
  obtain ⟨before, after, hbefore, hafter, hfresh, rfl⟩ := h.applies
  rw [hbefore, hafter]
  exact .added row hfresh

theorem Changed.differsInOne_of_patch {tablePrefix : JsString} {table : SystemTable} {row : Row}
    {payload : Payload} {world world' : World} {titles : List JsString}
    (h : Changed tablePrefix table (.patch row payload) world world')
    (hcells : ∀ title, title ∉ titles → (row.patch payload).cell title = row.cell title) :
    DiffersInOne titles (systemRows tablePrefix world table)
      (systemRows tablePrefix world' table) := by
  obtain ⟨before, after, hbefore, hafter, hrow, rfl⟩ := h.applies
  rw [hbefore, hafter, rows_update hrow]
  exact .changed row (row.patch payload) hrow rfl hcells

end Store
end NocoMiddleware
