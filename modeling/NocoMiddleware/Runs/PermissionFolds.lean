import NocoMiddleware.Runs.KeyUniqueness
import NocoMiddleware.Store.SameRows

/-!
# Permission writes as a fold

`batchSetPermissions` and `copyPermissions` write the permission rows of one role, one dto
after the other.  Where no role has two rows of one table, each of them is a fold in which
the last dto of a table wins: the row of the table is overwritten or inserted, and all other
rows stay.
-/

namespace NocoMiddleware
namespace Runs

open NocoMiddleware.Js NocoMiddleware.Filter NocoMiddleware.Tables NocoMiddleware.Store
open NocoMiddleware.Permissions NocoMiddleware.Users NocoMiddleware.Auth
open NocoMiddleware.Foundation

/-! ## The fold -/

/-- The last dto of a list for a table. -/
def lastDto (dtos : List SetTablePermissionsDto) (name : JsString) :
    Option SetTablePermissionsDto :=
  dtos.reverse.find? fun dto => dto.tableName = .string name

/-- The fields that a permission row is written with. -/
def permissionFields : List JsString :=
  [js "role_id", js "table_name", js "can_create", js "can_read", js "can_update",
    js "can_delete"]

/-- The rows of the role for the tables of the dtos carry the flags of the last dto of their
table; other rows stay, and so do the other fields of these rows. -/
structure LastWins (roleId : JsNumber) (dtos : List SetTablePermissionsDto)
    (rows rows' : List Row) : Prop where
  keys : ∃ created, rows'.map Row.id = rows.map Row.id ++ created
  fields : ∀ row ∈ rows, ∃ row' ∈ rows', row'.id = row.id ∧
    ∀ title, title ∉ permissionFields → row'.cell title = row.cell title
  others : ∀ row, (∀ name, permissionKey row = some (roleId, name) → lastDto dtos name = none) →
    (row ∈ rows' ↔ row ∈ rows)
  present : ∀ name dto, lastDto dtos name = some dto →
    ∃ row ∈ rows', permissionKey row = some (roleId, name)
  flags : ∀ row ∈ rows', ∀ name dto, permissionKey row = some (roleId, name) →
    lastDto dtos name = some dto →
    ∀ action : CrudAction, row.cell action.flag = .boolean (dto.allows action)
  unique : UniqueKeys permissionKey rows'

/-- The permission row of a dto is overwritten, or inserted where there was none. -/
inductive RowWritten (dto : SetTablePermissionsDto) (before : Table) : Table → Prop where
  | updated {row : Row} (hrow : row ∈ before.rows)
      (hmatches : Matches dto.roleId dto.tableName row) :
      RowWritten dto before (before.update (.ofNat row.id) (permissionData dto))
  | created {row : Row} (hfresh : row.id ∉ before.rows.map Row.id)
      (habsent : ∀ other ∈ before.rows, ¬ Matches dto.roleId dto.tableName other)
      (hcells : row.cells = toCells (permissionData dto)) :
      RowWritten dto before (before.insert row hfresh)

/-- The dto is of the role and names a table as `TABLE_NAME_PATTERN` wants it. -/
structure NamesTable (unicode : UnicodeClasses) (roleId : JsNumber)
    (dto : SetTablePermissionsDto) (name : JsString) : Prop where
  role : dto.roleId = roleId
  finite : ∃ x, roleId = .finite x
  table : dto.tableName = .string name
  valid : isValidTableName unicode name = true

/-- The dto is of the role and names a table by a text that a lookup leaves as it is. -/
structure Addresses (roleId : JsNumber) (dto : SetTablePermissionsDto) (name : JsString) :
    Prop where
  role : dto.roleId = roleId
  finite : ∃ x, roleId = .finite x
  table : dto.tableName = .string name
  trimmed : trim name = name

/-- The dtos have been written to the permission table, and to no other table. -/
structure DtosWritten (tablePrefix : JsString) (roleId : JsNumber)
    (dtos : List SetTablePermissionsDto) (world world' : World) : Prop where
  tables : world'.tables = world.tables
  elsewhere : ∀ tableId, ¬ IsPermissionsTable tablePrefix world tableId →
    world'.rows tableId = world.rows tableId
  rows : LastWins roleId dtos (systemRows tablePrefix world .tablePermissions)
    (systemRows tablePrefix world' .tablePermissions)
  cache : dtos ≠ [] → world'.cache = .empty

section

variable {unicode : UnicodeClasses} {roleId : JsNumber} {dto : SetTablePermissionsDto}
  {dtos : List SetTablePermissionsDto} {name : JsString}

@[simp] theorem lastDto_nil : lastDto [] name = none := rfl

theorem lastDto_concat_self (h : dto.tableName = .string name) :
    lastDto (dtos ++ [dto]) name = some dto := by
  unfold lastDto
  rw [List.reverse_append, List.reverse_singleton, List.singleton_append,
    List.find?_cons_of_pos (by simpa using h)]

theorem lastDto_concat_of_ne (h : dto.tableName ≠ .string name) :
    lastDto (dtos ++ [dto]) name = lastDto dtos name := by
  unfold lastDto
  rw [List.reverse_append, List.reverse_singleton, List.singleton_append,
    List.find?_cons_of_neg (by simpa using h)]

theorem of_lastDto (h : lastDto dtos name = some dto) :
    dto ∈ dtos ∧ dto.tableName = .string name := by
  obtain ⟨hmem, hname⟩ := of_find h
  exact ⟨List.mem_reverse.mp hmem, hname⟩

theorem lastDto_of_mem (hmem : dto ∈ dtos) (hname : dto.tableName = .string name) :
    ∃ last, lastDto dtos name = some last :=
  find_of_mem (List.mem_reverse.mpr hmem) hname

theorem NamesTable.addresses (h : NamesTable unicode roleId dto name) :
    Addresses roleId dto name :=
  ⟨h.role, h.finite, h.table, trim_of_isValidTableName h.valid⟩

namespace Addresses

variable {row : Row} {rest : List (JsString × JsonScalar)}

/-- A row that was written, over any other fields, is the row of the role and the table. -/
theorem permissionKey_of_written (h : Addresses roleId dto name)
    (hcells : row.cells = toCells (permissionData dto) ++ rest) :
    permissionKey row = some (roleId, name) := by
  obtain ⟨rfl, hfinite, htable, -⟩ := h
  apply (permissionKey_eq_some_iff row _ _).mpr
  exact ⟨cell_role_id_of_written hfinite hcells, cell_table_name_of_written htable hfinite hcells⟩

theorem flags_of_written (h : Addresses roleId dto name)
    (hcells : row.cells = toCells (permissionData dto) ++ rest) (action : CrudAction) :
    row.cell action.flag = .boolean (dto.allows action) := by
  obtain ⟨rfl, hfinite, -, -⟩ := h
  exact cell_flag_of_written hfinite hcells action

/-- The lookup for the dto asks for the row of the role and the table. -/
theorem matches_iff (h : Addresses roleId dto name) :
    Matches dto.roleId dto.tableName row ↔ permissionKey row = some (roleId, name) := by
  rw [h.role, h.table, Matches, satisfies_eqCondition_string (by decide) row h.trimmed,
    permissionKey_eq_some_iff]

end Addresses

theorem cell_patch_permissionData (dto : SetTablePermissionsDto) (row : Row) {title : JsString}
    (h : title ∉ permissionFields) :
    (row.patch (permissionData dto)).cell title = row.cell title :=
  Row.cell_patch_of_notMem row h

/-! ## One step of the fold -/

theorem LastWins.refl {rows : List Row} (hunique : UniqueKeys permissionKey rows) :
    LastWins roleId [] rows rows where
  keys := ⟨[], (List.append_nil _).symm⟩
  fields row hrow := ⟨row, hrow, rfl, fun _ _ => rfl⟩
  others _ _ := Iff.rfl
  present _ _ h := by cases h
  flags _ _ _ _ _ h := by cases h
  unique := hunique

variable {rows : List Row} {before after : Table}

/-- After a permission row was written there is one row with its key, and the rows with other
keys are those of before. -/
structure Replaces (roleId : JsNumber) (name : JsString) (dto : SetTablePermissionsDto)
    (written : Row) (before after : List Row) : Prop where
  keys : ∃ created, after.map Row.id = before.map Row.id ++ created
  key : permissionKey written = some (roleId, name)
  flags : ∀ action : CrudAction, written.cell action.flag = .boolean (dto.allows action)
  mem : ∀ row, row ∈ after ↔
    row = written ∨ (row ∈ before ∧ permissionKey row ≠ some (roleId, name))
  fields : ∀ row ∈ before, permissionKey row = some (roleId, name) →
    written.id = row.id ∧ ∀ title, title ∉ permissionFields → written.cell title = row.cell title

variable {before after : Table}

/-- An update of the row with the key, which is the only one. -/
theorem replaces_updated {row : Row} (hrow : row ∈ before.rows)
    (hkey : permissionKey row = some (roleId, name)) (hname : Addresses roleId dto name)
    (hunique : UniqueKeys permissionKey before.rows) :
    Replaces roleId name dto (row.patch (permissionData dto)) before.rows
      (before.update (.ofNat row.id) (permissionData dto)).rows := by
  constructor
  · refine ⟨[], ?_⟩
    rw [rows_update hrow, List.map_map, List.append_nil]
    apply List.map_congr_left
    intro other _
    show Row.id (if other = row then row.patch (permissionData dto) else other) = other.id
    split
    · next heq => rw [heq, Row.id_patch]
    · rfl
  · exact hname.permissionKey_of_written rfl
  · exact hname.flags_of_written rfl
  · intro other
    rw [rows_update hrow, List.mem_map]
    constructor
    · rintro ⟨old, hold, rfl⟩
      by_cases heq : old = row
      · exact Or.inl (if_pos heq)
      · rw [if_neg heq]
        exact Or.inr ⟨hold, fun hsame => heq (hunique _ old hold row hrow hsame hkey)⟩
    · rintro (rfl | ⟨hother, hne⟩)
      · exact ⟨row, hrow, if_pos rfl⟩
      · refine ⟨other, hother, if_neg ?_⟩
        rintro rfl
        exact hne hkey
  · intro other hother hsame
    obtain rfl := hunique _ other hother row hrow hsame hkey
    exact ⟨rfl, fun title htitle => cell_patch_permissionData dto other htitle⟩

/-- Where the keys are unique, writing a permission row replaces the row of its key. -/
theorem RowWritten.replaces (h : RowWritten dto before after)
    (hname : Addresses roleId dto name)
    (hunique : UniqueKeys permissionKey before.rows) :
    ∃ written, Replaces roleId name dto written before.rows after.rows := by
  cases h with
  | updated hrow hmatches =>
      exact ⟨_, replaces_updated hrow (hname.matches_iff.mp hmatches) hname hunique⟩
  | created hfresh habsent hcells =>
      rename_i row
      rw [← List.append_nil (toCells (permissionData dto))] at hcells
      -- no row has the key, so no row goes
      have hfree : ∀ other ∈ before.rows, permissionKey other ≠ some (roleId, name) := by
        intro other hother hsame
        exact habsent other hother (hname.matches_iff.mpr hsame)
      refine ⟨row, ?_⟩
      constructor
      · exact ⟨[row.id], by rw [Table.rows_insert, List.map_append, List.map_singleton]⟩
      · exact hname.permissionKey_of_written hcells
      · exact hname.flags_of_written hcells
      · intro other
        rw [Table.rows_insert, List.mem_append, List.mem_singleton, or_comm]
        constructor
        · exact fun hother => hother.imp_right fun hold => ⟨hold, hfree other hold⟩
        · exact fun hother => hother.imp_right fun hold => hold.1
      · exact fun other hother hsame => absurd hsame (hfree other hother)

variable {rows middle rows' : List Row} {written : Row}

namespace Replaces

theorem written_mem (h : Replaces roleId name dto written middle rows') : written ∈ rows' :=
  (h.mem written).mpr (Or.inl rfl)

/-- Every row is still there, with the fields that a dto does not write. -/
theorem exists_kept (h : Replaces roleId name dto written middle rows') {row : Row}
    (hrow : row ∈ middle) :
    ∃ row' ∈ rows', row'.id = row.id ∧
      ∀ title, title ∉ permissionFields → row'.cell title = row.cell title := by
  by_cases hkey : permissionKey row = some (roleId, name)
  · exact ⟨written, h.written_mem, h.fields row hrow hkey⟩
  · exact ⟨row, (h.mem row).mpr (Or.inr ⟨hrow, hkey⟩), rfl, fun _ _ => rfl⟩

/-- The rows with other keys are those of before. -/
theorem mem_iff_of_key_ne (h : Replaces roleId name dto written middle rows') {row : Row}
    (hkey : permissionKey row ≠ some (roleId, name)) : row ∈ rows' ↔ row ∈ middle := by
  have hne : row ≠ written := by
    rintro rfl
    exact hkey h.key
  rw [h.mem, or_iff_right hne, and_iff_left hkey]

theorem uniqueKeys (h : Replaces roleId name dto written middle rows')
    (hunique : UniqueKeys permissionKey middle) : UniqueKeys permissionKey rows' := by
  intro key first hfirst second hsecond hkey hsame
  rcases (h.mem first).mp hfirst with rfl | ⟨hfirst, hfirstKey⟩
  · rcases (h.mem second).mp hsecond with rfl | ⟨hsecond, hsecondKey⟩
    · rfl
    · rw [hsame, ← hkey, h.key] at hsecondKey
      contradiction
  · rcases (h.mem second).mp hsecond with rfl | ⟨hsecond, hsecondKey⟩
    · rw [hkey, ← hsame, h.key] at hfirstKey
      contradiction
    · exact hunique key first hfirst second hsecond hkey hsame

end Replaces

/-- One more dto. -/
theorem LastWins.concat (h : LastWins roleId dtos rows middle)
    (hname : dto.tableName = .string name)
    (hstep : Replaces roleId name dto written middle rows') :
    LastWins roleId (dtos ++ [dto]) rows rows' := by
  -- the last dto of any other table is still the last one
  have hother : ∀ {other}, other ≠ name → lastDto (dtos ++ [dto]) other = lastDto dtos other := by
    intro other hne
    apply lastDto_concat_of_ne
    rw [hname]
    exact fun heq => hne (JsValue.string.inj heq).symm
  have hkey_ne : ∀ {other}, other ≠ name → some (roleId, other) ≠ some (roleId, name) := by
    intro other hne hsame
    exact hne (congrArg Prod.snd (Option.some.inj hsame))
  constructor
  · obtain ⟨first, hfirst⟩ := h.keys
    obtain ⟨second, hsecond⟩ := hstep.keys
    exact ⟨first ++ second, by rw [hsecond, hfirst, List.append_assoc]⟩
  · intro row hrow
    obtain ⟨row₁, hrow₁, hid₁, hcells₁⟩ := h.fields row hrow
    obtain ⟨row₂, hrow₂, hid₂, hcells₂⟩ := hstep.exists_kept hrow₁
    refine ⟨row₂, hrow₂, hid₂.trans hid₁, ?_⟩
    intro title htitle
    rw [hcells₂ title htitle, hcells₁ title htitle]
  · intro row huntouched
    have hkey : permissionKey row ≠ some (roleId, name) := by
      intro hkey
      have hnone := huntouched name hkey
      rw [lastDto_concat_self hname] at hnone
      contradiction
    rw [hstep.mem_iff_of_key_ne hkey]
    apply h.others row
    intro other hkey'
    rw [← huntouched other hkey', hother]
    rintro rfl
    exact hkey hkey'
  · intro other last hlast
    by_cases heq : other = name
    · rw [heq]
      exact ⟨written, hstep.written_mem, hstep.key⟩
    · rw [hother heq] at hlast
      obtain ⟨row, hrow, hkey⟩ := h.present other last hlast
      rw [← hstep.mem_iff_of_key_ne (hkey ▸ hkey_ne heq)] at hrow
      exact ⟨row, hrow, hkey⟩
  · intro row hrow other last hkey hlast
    by_cases heq : other = name
    · -- the row of the table of the new dto is the written one
      obtain rfl : row = written := by
        rcases (hstep.mem row).mp hrow with hwritten | ⟨-, hne⟩
        · exact hwritten
        · rw [hkey, heq] at hne
          contradiction
      rw [heq, lastDto_concat_self hname] at hlast
      obtain rfl := Option.some.inj hlast
      exact hstep.flags
    · rw [hother heq] at hlast
      rw [hstep.mem_iff_of_key_ne (hkey ▸ hkey_ne heq)] at hrow
      exact h.flags row hrow other last hkey hlast
  · exact hstep.uniqueKeys h.unique

/-! ## Worlds -/

variable {tablePrefix : JsString} {world first last : World}

theorem rowWritten_of_upserted (h : Upserted tablePrefix dto first last) :
    ∃ before after, systemRows tablePrefix first .tablePermissions = before.rows ∧
      systemRows tablePrefix last .tablePermissions = after.rows ∧
      RowWritten dto before after ∧
      ∃ change, Changed tablePrefix .tablePermissions change first last := by
  obtain ⟨-, ⟨row, hmatches, hchanged⟩ | ⟨habsent, row, hcells, hchanged⟩⟩ := h
  · obtain ⟨before, after, hbefore, hafter, hrow, rfl⟩ := hchanged.applies
    exact ⟨before, _, hbefore, hafter, .updated hrow hmatches, _, hchanged⟩
  · obtain ⟨before, after, hbefore, hafter, hfresh, rfl⟩ := hchanged.applies
    rw [hbefore] at habsent
    exact ⟨before, _, hbefore, hafter, .created hfresh habsent hcells, _, hchanged⟩

theorem DtosWritten.refl
    (hunique : UniqueKeys permissionKey (systemRows tablePrefix world .tablePermissions))
    (h : Unchanged world first) : DtosWritten tablePrefix roleId [] world first where
  tables := h.tables
  elsewhere tableId _ := by rw [h.rows]
  rows := by
    rw [h.systemRows_eq]
    exact .refl hunique
  cache hne := absurd rfl hne

/-- One more call of `setTablePermissions`. -/
theorem DtosWritten.concat (h : DtosWritten tablePrefix roleId dtos world first)
    (hname : Addresses roleId dto name)
    (hstep : PermissionsSet tablePrefix dto first last) :
    DtosWritten tablePrefix roleId (dtos ++ [dto]) world last := by
  obtain ⟨middle, hupserted, hcleared⟩ := hstep
  obtain ⟨before, after, hbefore, hafter, hwritten, change, hchanged⟩ :=
    rowWritten_of_upserted hupserted
  have hrows := h.rows
  rw [hbefore] at hrows
  obtain ⟨written, hreplaces⟩ := hwritten.replaces hname hrows.unique
  constructor
  · rw [hcleared.tables, hchanged.tables, h.tables]
  · intro tableId helsewhere
    rw [hcleared.rows, hchanged.rows_of_ne, h.elsewhere tableId helsewhere]
    intro found hfound hid
    rw [h.tables] at hfound
    exact helsewhere ⟨found, hfound, hid⟩
  · rw [hcleared.systemRows_eq, hafter]
    exact hrows.concat hname.table hreplaces
  · intro _
    obtain ⟨earlier, -, rfl⟩ := hcleared
    rfl

end

end Runs
end NocoMiddleware
