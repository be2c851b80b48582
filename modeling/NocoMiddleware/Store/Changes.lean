import NocoMiddleware.Foundation.Invariant
import NocoMiddleware.Store.NocoDBService

/-!
# Changes of the system tables

The effects of the services on the world, one write or one `clearCache` at a time.
`Changed` is one write to a system table and `Cleared` one `clearCache`; both
may be preceded by any passage of time.  The services are specified by what they
change, and every invariant of the system tables is derived from that.
-/

namespace NocoMiddleware
namespace Store

open NocoMiddleware.Js NocoMiddleware.Filter NocoMiddleware.Tables NocoMiddleware.Permissions
open NocoMiddleware.Foundation

/-- The rows of a system table: none if the table does not resolve. -/
def systemRows (tablePrefix : JsString) (world : World) (table : SystemTable) : List Row :=
  match resolve tablePrefix world.tables table.name with
  | none => []
  | some found => (world.rows found.id).rows

/-- No two system table names resolve to one table. -/
def DistinctTables (tablePrefix : JsString) (tables : List TableMeta) : Prop :=
  ∀ first second : SystemTable, first ≠ second → ∀ found other,
    resolve tablePrefix tables first.name = some found →
    resolve tablePrefix tables second.name = some other → found.id ≠ other.id

/-- Two system table names resolve to one table. -/
def SharesTable (tablePrefix : JsString) (tables : List TableMeta)
    (first second : SystemTable) : Prop :=
  ∃ found other, resolve tablePrefix tables first.name = some found ∧
    resolve tablePrefix tables second.name = some other ∧ found.id = other.id

theorem distinctTables_systemTables (tablePrefix : JsString) :
    DistinctTables tablePrefix (systemTables tablePrefix) := by
  intro first second hne found other hfound hother hid
  rw [resolve_systemTables] at hfound hother
  obtain rfl := Option.some.inj hfound
  obtain rfl := Option.some.inj hother
  exact hne (SystemTable.name_injective hid)

/-- One write to a table. -/
inductive Change where
  | insert (row : Row)
  | patch (row : Row) (data : Payload)
  | remove (row : Row)

/-- The content of a table before and after a write. -/
def Change.Applies (change : Change) (before after : Table) : Prop :=
  match change with
  | insert row => ∃ h : row.id ∉ before.rows.map Row.id, after = before.insert row h
  | patch row data => row ∈ before.rows ∧ after = before.update (.ofNat row.id) data
  | remove row => row ∈ before.rows ∧ after = before.delete (.ofNat row.id)

/-- A write keeps a property of the row it is about. -/
def Change.Keeps (p : Row → Prop) : Change → Prop
  | insert row => p row
  | patch row data => p row → p (row.patch data)
  | remove _ => True

/-- After some time, one write to a system table. -/
def Changed (tablePrefix : JsString) (table : SystemTable) (change : Change)
    (world world' : World) : Prop :=
  ∃ found earlier content,
    resolve tablePrefix world.tables table.name = some found ∧ Unchanged world earlier ∧
      change.Applies (world.rows found.id) content ∧
      world' = earlier.setTable found.id content

/-- After some time, one call of `clearCache`. -/
def Cleared (userId : Option JsNumber) (world world' : World) : Prop :=
  ∃ earlier, Unchanged world earlier ∧ world' = earlier.setCache (world.cache.clear userId)

theorem systemRows_eq {tablePrefix : JsString} {world : World} {table : SystemTable}
    {found : TableMeta} (h : resolve tablePrefix world.tables table.name = some found) :
    systemRows tablePrefix world table = (world.rows found.id).rows := by
  simp only [systemRows, h]

/-- The rows of a system table with a key are one row. -/
theorem eq_of_mem_systemRows {tablePrefix : JsString} {world : World} {table : SystemTable}
    {first second : Row} (hfirst : first ∈ systemRows tablePrefix world table)
    (hsecond : second ∈ systemRows tablePrefix world table) (h : first.id = second.id) :
    first = second := by
  cases hfound : resolve tablePrefix world.tables table.name with
  | none =>
      simp only [systemRows, hfound] at hfirst
      contradiction
  | some found =>
      rw [systemRows_eq hfound] at hfirst hsecond
      exact Table.eq_of_id_eq hfirst hsecond h

/-- A lookup by key finds the row with the key. -/
theorem find_systemRows {tablePrefix : JsString} {world : World} {table : SystemTable} {row : Row}
    {p : Row → Prop} [DecidablePred p] (hrow : row ∈ systemRows tablePrefix world table)
    (hp : ∀ other, p other ↔ other.id = row.id) :
    (systemRows tablePrefix world table).find? (fun other => p other) = some row := by
  apply find_of_unique hrow ((hp row).mpr rfl)
  intro other hother hid
  exact eq_of_mem_systemRows hother hrow ((hp other).mp hid)

namespace Unchanged

variable {world world' : World}

@[simp] theorem systemRows_eq (h : Unchanged world world') (tablePrefix : JsString)
    (table : SystemTable) :
    systemRows tablePrefix world' table = systemRows tablePrefix world table := by
  simp only [systemRows, h.tables, h.rows]

/-- Time only ends the life of cache entries. -/
theorem live {userId : JsNumber} {value : UserPermissions} (h : Unchanged world world')
    (hlive : world'.cache.live world'.clock userId = some value) :
    world.cache.live world.clock userId = some value := by
  rw [h.cache] at hlive
  exact PermissionsCache.live_of_le h.clock hlive

end Unchanged

namespace Cleared

variable {userId : Option JsNumber} {world world' : World}

theorem tables (h : Cleared userId world world') : world'.tables = world.tables := by
  obtain ⟨earlier, hearlier, rfl⟩ := h
  rw [World.tables_setCache, hearlier.tables]

theorem rows (h : Cleared userId world world') : world'.rows = world.rows := by
  obtain ⟨earlier, hearlier, rfl⟩ := h
  rw [World.rows_setCache, hearlier.rows]

theorem systemRows_eq (h : Cleared userId world world') (tablePrefix : JsString)
    (table : SystemTable) :
    systemRows tablePrefix world' table = systemRows tablePrefix world table := by
  simp only [systemRows, h.tables, h.rows]

/-- What is live after a `clearCache` was live before and is not covered by it. -/
theorem live {other : JsNumber} {value : UserPermissions} (h : Cleared userId world world')
    (hlive : world'.cache.live world'.clock other = some value) :
    ¬ Covers userId other ∧ world.cache.live world.clock other = some value := by
  obtain ⟨earlier, hearlier, rfl⟩ := h
  rw [World.cache_setCache, World.clock_setCache] at hlive
  obtain ⟨hcovers, hbefore⟩ := (PermissionsCache.live_clear_eq_some_iff _ _ _ _ _).mp hlive
  exact ⟨hcovers, PermissionsCache.live_of_le hearlier.clock hbefore⟩

end Cleared

namespace Changed

variable {tablePrefix : JsString} {table : SystemTable} {change : Change}
variable {world world' : World}

theorem tables (h : Changed tablePrefix table change world world') :
    world'.tables = world.tables := by
  obtain ⟨found, earlier, content, -, hearlier, -, rfl⟩ := h
  rw [World.tables_setTable, hearlier.tables]

theorem cache (h : Changed tablePrefix table change world world') :
    world'.cache = world.cache := by
  obtain ⟨found, earlier, content, -, hearlier, -, rfl⟩ := h
  rw [World.cache_setTable, hearlier.cache]

theorem clock (h : Changed tablePrefix table change world world') :
    world.clock ≤ world'.clock := by
  obtain ⟨found, earlier, content, -, hearlier, -, rfl⟩ := h
  rw [World.clock_setTable]
  exact hearlier.clock

/-- A write leaves the cache alone. -/
theorem live {userId : JsNumber} {value : UserPermissions}
    (h : Changed tablePrefix table change world world')
    (hlive : world'.cache.live world'.clock userId = some value) :
    world.cache.live world.clock userId = some value := by
  rw [h.cache] at hlive
  exact PermissionsCache.live_of_le h.clock hlive

/-- The written table before and after the write. -/
theorem applies (h : Changed tablePrefix table change world world') :
    ∃ before after, systemRows tablePrefix world table = before.rows ∧
      systemRows tablePrefix world' table = after.rows ∧ change.Applies before after := by
  obtain ⟨found, earlier, content, hfound, hearlier, happlies, rfl⟩ := h
  refine ⟨world.rows found.id, content, systemRows_eq hfound, ?_, happlies⟩
  have hfound' : resolve tablePrefix (earlier.setTable found.id content).tables table.name =
      some found := by
    rw [World.tables_setTable, hearlier.tables, hfound]
  rw [systemRows_eq hfound', World.rows_setTable_self]

/-- Any system table before and after a write: it is untouched, or it is the written
table. -/
theorem applies_or_eq (h : Changed tablePrefix table change world world')
    (other : SystemTable) :
    systemRows tablePrefix world' other = systemRows tablePrefix world other ∨
      ∃ before after, systemRows tablePrefix world other = before.rows ∧
        systemRows tablePrefix world' other = after.rows ∧ change.Applies before after := by
  obtain ⟨found, earlier, content, hfound, hearlier, happlies, rfl⟩ := h
  cases hother : resolve tablePrefix world.tables other.name with
  | none =>
      refine Or.inl ?_
      simp only [systemRows, World.tables_setTable, hearlier.tables, hother]
  | some otherFound =>
      have hother' : resolve tablePrefix (earlier.setTable found.id content).tables other.name =
          some otherFound := by
        rw [World.tables_setTable, hearlier.tables, hother]
      rw [systemRows_eq hother, systemRows_eq hother']
      by_cases hid : otherFound.id = found.id
      · refine Or.inr ⟨world.rows found.id, content, by rw [hid], ?_, happlies⟩
        rw [hid, World.rows_setTable_self]
      · refine Or.inl ?_
        rw [World.rows_setTable_of_ne _ _ hid, hearlier.rows]

/-- A write leaves the other system tables alone. -/
theorem systemRows_of_ne (h : Changed tablePrefix table change world world')
    (hdistinct : DistinctTables tablePrefix world.tables) {other : SystemTable}
    (hne : other ≠ table) :
    systemRows tablePrefix world' other = systemRows tablePrefix world other := by
  obtain ⟨found, earlier, content, hfound, hearlier, -, rfl⟩ := h
  cases hother : resolve tablePrefix world.tables other.name with
  | none => simp only [systemRows, World.tables_setTable, hearlier.tables, hother]
  | some otherFound =>
      have hid := hdistinct other table hne otherFound found hother hfound
      simp only [systemRows, World.tables_setTable, hearlier.tables, hother]
      rw [World.rows_setTable_of_ne _ _ hid, hearlier.rows]

/-- An insertion keeps the rows of all system tables. -/
theorem mem_of_insert {row old : Row} (h : Changed tablePrefix table (.insert row) world world')
    {other : SystemTable} (hold : old ∈ systemRows tablePrefix world other) :
    old ∈ systemRows tablePrefix world' other := by
  rcases h.applies_or_eq other with heq | ⟨before, after, hbefore, hafter, hfresh, rfl⟩
  · rwa [heq]
  · rw [hbefore] at hold
    rw [hafter, Table.rows_insert]
    exact List.mem_append_left _ hold

/-- The rows of a system table after an insertion into some system table. -/
theorem mem_insert {row new : Row} (h : Changed tablePrefix table (.insert row) world world')
    {other : SystemTable} (hnew : new ∈ systemRows tablePrefix world' other) :
    new ∈ systemRows tablePrefix world other ∨ new = row := by
  rcases h.applies_or_eq other with heq | ⟨before, after, hbefore, hafter, hfresh, rfl⟩
  · exact Or.inl (heq ▸ hnew)
  · rw [hafter, Table.rows_insert, List.mem_append, List.mem_singleton] at hnew
    rwa [hbefore]

/-- The inserted row was not there and is there. -/
theorem inserted_mem {row : Row} (h : Changed tablePrefix table (.insert row) world world') :
    row ∉ systemRows tablePrefix world table ∧ row ∈ systemRows tablePrefix world' table := by
  obtain ⟨before, after, hbefore, hafter, hfresh, rfl⟩ := h.applies
  rw [hbefore, hafter, Table.rows_insert]
  exact ⟨fun hmem => hfresh (List.mem_map_of_mem hmem), by simp⟩

/-- The key of an inserted row is new. -/
theorem id_ne_of_insert {row old : Row} (h : Changed tablePrefix table (.insert row) world world')
    (hold : old ∈ systemRows tablePrefix world table) : old.id ≠ row.id := by
  obtain ⟨before, after, hbefore, -, hfresh, -⟩ := h.applies
  intro hid
  rw [hbefore] at hold
  exact hfresh (hid ▸ List.mem_map_of_mem hold)

/-- The row that is overwritten is there before. -/
theorem mem_of_patch {row : Row} {data : Payload}
    (h : Changed tablePrefix table (.patch row data) world world') :
    row ∈ systemRows tablePrefix world table := by
  obtain ⟨before, after, hbefore, -, hmem, -⟩ := h.applies
  rwa [hbefore]

/-- The overwritten row is there after, and the other rows stay. -/
theorem mem_patch {row old : Row} {data : Payload}
    (h : Changed tablePrefix table (.patch row data) world world')
    (hold : old ∈ systemRows tablePrefix world table) :
    (if old = row then old.patch data else old) ∈ systemRows tablePrefix world' table := by
  obtain ⟨before, after, hbefore, hafter, hmem, rfl⟩ := h.applies
  rw [hbefore] at hold
  rw [hafter]
  refine List.mem_map.mpr ⟨old, hold, ?_⟩
  by_cases hrow : old = row
  · rw [if_pos hrow, if_pos (by rw [hrow])]
  · rw [if_neg hrow, if_neg]
    intro hid
    exact hrow (Table.eq_of_id_eq hold hmem (JsNumber.ofNat_inj.mp hid).symm)

/-- A row after a row was overwritten is another one of before, or the overwritten
row. -/
theorem of_mem_patch {row new : Row} {data : Payload}
    (h : Changed tablePrefix table (.patch row data) world world')
    (hnew : new ∈ systemRows tablePrefix world' table) :
    (new ∈ systemRows tablePrefix world table ∧ new ≠ row) ∨ new = row.patch data := by
  obtain ⟨before, after, hbefore, hafter, hmem, rfl⟩ := h.applies
  rw [hafter] at hnew
  rw [hbefore]
  exact Table.replaced_of_mem_update hmem hnew

/-- What all rows of a system table satisfy is kept by a write that keeps it of the row it
is about, whichever table it touches. -/
theorem forall_systemRows {p : Row → Prop} (h : Changed tablePrefix table change world world')
    {other : SystemTable} (hall : ∀ row ∈ systemRows tablePrefix world other, p row)
    (hkeeps : change.Keeps p) :
    ∀ row ∈ systemRows tablePrefix world' other, p row := by
  intro row hrow
  rcases h.applies_or_eq other with heq | ⟨before, after, hbefore, hafter, happlies⟩
  · rw [heq] at hrow
    exact hall row hrow
  · rw [hbefore] at hall
    rw [hafter] at hrow
    cases change with
    | insert new =>
        obtain ⟨hfresh, rfl⟩ := happlies
        rw [Table.rows_insert, List.mem_append, List.mem_singleton] at hrow
        rcases hrow with hold | rfl
        · exact hall row hold
        · exact hkeeps
    | patch old data =>
        obtain ⟨hold, rfl⟩ := happlies
        rcases Table.replaced_of_mem_update hold hrow with ⟨hmem, -⟩ | rfl
        · exact hall row hmem
        · exact hkeeps (hall old hold)
    | remove old =>
        obtain ⟨-, rfl⟩ := happlies
        exact hall row (Table.mem_delete.mp hrow).1

/-- An overwritten row of any system table is there after, as it was or overwritten. -/
theorem mem_of_patch_or {row old : Row} {data : Payload}
    (h : Changed tablePrefix table (.patch row data) world world') {other : SystemTable}
    (hold : old ∈ systemRows tablePrefix world other) :
    old ∈ systemRows tablePrefix world' other ∨
      old.patch data ∈ systemRows tablePrefix world' other := by
  rcases h.applies_or_eq other with heq | ⟨before, after, hbefore, hafter, hmem, rfl⟩
  · left
    rwa [heq]
  · rw [hbefore] at hold
    rw [hafter]
    by_cases hid : JsNumber.ofNat row.id = .ofNat old.id
    · right
      exact List.mem_map.mpr ⟨old, hold, if_pos hid⟩
    · left
      exact List.mem_map.mpr ⟨old, hold, if_neg hid⟩

/-- A removal takes only the removed row away, and only from tables that answer to the
name of the written one. -/
theorem mem_of_remove {row old : Row} (h : Changed tablePrefix table (.remove row) world world')
    {other : SystemTable} (hold : old ∈ systemRows tablePrefix world other)
    (hne : SharesTable tablePrefix world.tables table other → old ≠ row) :
    old ∈ systemRows tablePrefix world' other := by
  obtain ⟨found, earlier, content, hfound, hearlier, ⟨hrow, rfl⟩, rfl⟩ := h
  cases hother : resolve tablePrefix world.tables other.name with
  | none =>
      simp only [systemRows, hother] at hold
      contradiction
  | some otherFound =>
      have hother' : resolve tablePrefix (earlier.setTable found.id
          ((world.rows found.id).delete (.ofNat row.id))).tables other.name =
          some otherFound := by
        rw [World.tables_setTable, hearlier.tables, hother]
      rw [systemRows_eq hother] at hold
      rw [systemRows_eq hother']
      by_cases hid : found.id = otherFound.id
      · have holdNe := hne ⟨found, otherFound, hfound, hother, hid⟩
        rw [← hid] at hold ⊢
        rw [World.rows_setTable_self]
        exact Table.mem_delete.mpr ⟨hold, fun h => holdNe (Table.eq_of_id_eq hold hrow h)⟩
      · rw [World.rows_setTable_of_ne _ _ (Ne.symm hid), hearlier.rows]
        exact hold

theorem of_unchanged {first : World} (hfirst : Unchanged first world)
    (h : Changed tablePrefix table change world world') :
    Changed tablePrefix table change first world' := by
  obtain ⟨found, earlier, content, hfound, hearlier, happlies, rfl⟩ := h
  rw [hfirst.tables] at hfound
  rw [hfirst.rows] at happlies
  exact ⟨found, earlier, content, hfound, hfirst.trans hearlier, happlies, rfl⟩

end Changed

/-- The property depends on the rows of the system tables only. -/
def ReadsSystemRows (tablePrefix : JsString) (property : World → Prop) : Prop :=
  ∀ world world', (∀ table, systemRows tablePrefix world' table =
    systemRows tablePrefix world table) → property world → property world'

namespace ReadsSystemRows

variable {tablePrefix : JsString} {property : World → Prop}

theorem unchanged (h : ReadsSystemRows tablePrefix property) : Preserves Unchanged property :=
  fun world world' hunchanged => h world world' (hunchanged.systemRows_eq tablePrefix)

theorem cleared (h : ReadsSystemRows tablePrefix property) (userId : Option JsNumber) :
    Preserves (Cleared userId) property :=
  fun world world' hcleared => h world world' (hcleared.systemRows_eq tablePrefix)

end ReadsSystemRows

/-! ## What the single steps change

A write resolves its table some time before the request, so the rules speak of an earlier
world from which nothing has changed since. -/

section

variable {faults : Bool} {tablePrefix : JsString} {first world : World} {table : SystemTable}
  {found : TableMeta}

theorem wp_create_changed {data : Payload} {post : Except Exception NocoRecord → World → Prop}
    (hfirst : Unchanged first world)
    (hfound : resolve tablePrefix first.tables table.name = some found)
    (hfail : faults = true → ∀ world', Unchanged first world' → post (.error .upstream) world')
    (hcreated : ∀ (row : Row) (world' : World), row.cells = toCells data →
      Changed tablePrefix table (.insert row) first world' →
      post (.ok (flattenRecord none row)) world') :
    wp (nocodb faults).contract (create found.id data) post world := by
  rw [← hfirst.tables] at hfound
  refine wp_create (fun hfaults _ h => hfail hfaults _ (hfirst.trans h)) ?_
  intro earlier row hfresh hcells hearlier
  have hchanged : Changed tablePrefix table (.insert row) world _ :=
    ⟨found, earlier, _, hfound, hearlier, ⟨hfresh, rfl⟩, rfl⟩
  exact hcreated row _ hcells (hchanged.of_unchanged hfirst)

theorem wp_update_changed {row : Row} {data : Payload}
    {post : Except Exception NocoRecord → World → Prop} (hfirst : Unchanged first world)
    (hfound : resolve tablePrefix first.tables table.name = some found)
    (hmem : row ∈ (first.rows found.id).rows)
    (hfail : faults = true → ∀ world', Unchanged first world' → post (.error .upstream) world')
    (hupdated : ∀ world', Changed tablePrefix table (.patch row data) first world' →
      post (.ok (flattenRecord none (row.patch data))) world') :
    wp (nocodb faults).contract (update found.id (.ofNat row.id) data) post world := by
  rw [← hfirst.tables] at hfound
  rw [← hfirst.rows] at hmem
  refine wp_update hmem (fun hfaults _ h => hfail hfaults _ (hfirst.trans h)) ?_
  intro earlier hearlier
  have hchanged : Changed tablePrefix table (.patch row data) world _ :=
    ⟨found, earlier, _, hfound, hearlier, ⟨hmem, rfl⟩, rfl⟩
  exact hupdated _ (hchanged.of_unchanged hfirst)

theorem wp_delete_changed {row : Row} {post : Except Exception Unit → World → Prop}
    (hfirst : Unchanged first world)
    (hfound : resolve tablePrefix first.tables table.name = some found)
    (hmem : row ∈ (first.rows found.id).rows)
    (hfail : faults = true → ∀ world', Unchanged first world' → post (.error .upstream) world')
    (hdeleted : ∀ world', Changed tablePrefix table (.remove row) first world' →
      post (.ok ()) world') :
    wp (nocodb faults).contract (delete found.id (.ofNat row.id)) post world := by
  rw [← hfirst.tables] at hfound
  rw [← hfirst.rows] at hmem
  refine wp_delete hmem (fun hfaults _ h => hfail hfaults _ (hfirst.trans h)) ?_
  intro earlier hearlier
  have hchanged : Changed tablePrefix table (.remove row) world _ :=
    ⟨found, earlier, _, hfound, hearlier, ⟨hmem, rfl⟩, rfl⟩
  exact hdeleted _ (hchanged.of_unchanged hfirst)

/-- Updating a record id that may not exist. -/
theorem wp_update_record {recordId : JsNumber} {data : Payload}
    {post : Except Exception NocoRecord → World → Prop} (hfirst : Unchanged first world)
    (hfound : resolve tablePrefix first.tables table.name = some found)
    (hfail : ∀ exception world', Unchanged first world' → post (.error exception) world')
    (hupdated : ∀ row world', JsNumber.ofNat row.id = recordId →
      Changed tablePrefix table (.patch row data) first world' →
      post (.ok (flattenRecord none (row.patch data))) world') :
    wp (nocodb faults).contract (update found.id recordId data) post world := by
  refine wp_call_nocodb (fun _ _ h => hfail _ _ (hfirst.trans h)) fun _ earlier _ hearlier => ?_
  have h := hfirst.trans hearlier
  simp only [answer, h.rows]
  cases hfind : (first.rows found.id).find recordId with
  | none => exact hfail _ _ h
  | some row =>
      obtain ⟨hmem, hid⟩ : row ∈ (first.rows found.id).rows ∧ recordId = .ofNat row.id :=
        of_find hfind
      refine hupdated row _ hid.symm ⟨found, earlier, _, hfound, h, ⟨hmem, rfl⟩, ?_⟩
      rw [hid]

/-- Deleting a record id that may not exist. -/
theorem wp_delete_record {recordId : JsNumber} {post : Except Exception Unit → World → Prop}
    (hfirst : Unchanged first world)
    (hfound : resolve tablePrefix first.tables table.name = some found)
    (hfail : ∀ exception world', Unchanged first world' → post (.error exception) world')
    (hdeleted : ∀ row world', JsNumber.ofNat row.id = recordId →
      Changed tablePrefix table (.remove row) first world' → post (.ok ()) world') :
    wp (nocodb faults).contract (delete found.id recordId) post world := by
  refine wp_call_nocodb (fun _ _ h => hfail _ _ (hfirst.trans h)) fun _ earlier _ hearlier => ?_
  have h := hfirst.trans hearlier
  simp only [answer, h.rows]
  cases hfind : (first.rows found.id).find recordId with
  | none => exact hfail _ _ h
  | some row =>
      obtain ⟨hmem, hid⟩ : row ∈ (first.rows found.id).rows ∧ recordId = .ofNat row.id :=
        of_find hfind
      refine hdeleted row _ hid.symm ⟨found, earlier, _, hfound, h, ⟨hmem, rfl⟩, ?_⟩
      rw [hid]

theorem wp_clearCache_cleared {userId : Option JsNumber}
    {post : Except Exception Unit → World → Prop}
    (hcleared : ∀ world', Cleared userId world world' → post (.ok ()) world') :
    wp (nocodb faults).contract (clearCache userId) post world :=
  wp_clearCache fun earlier hearlier => hcleared _ ⟨earlier, hearlier, rfl⟩

end

end Store
end NocoMiddleware
