import NocoMiddleware.Foundation.Footprint
import NocoMiddleware.Store.PagedListing
import NocoMiddleware.Store.StepEffects

/-!
# Which tables a program writes to

`WritesTo ids` are the requests that write to tables with these ids at most and leave the
permission cache alone.  A program that uses no others leaves the rows of all other tables as
they are.
-/

namespace NocoMiddleware
namespace Store

open NocoMiddleware.Js NocoMiddleware.Filter NocoMiddleware.Tables NocoMiddleware.Foundation

/-- The request writes to a table with one of the ids, or does not write at all. -/
def WritesTo (ids : JsString → Prop) : Op ⊕ PageOp → Prop
  | .inl (.create tableId _) => ids tableId
  | .inl (.update tableId _ _) => ids tableId
  | .inl (.delete tableId _) => ids tableId
  | .inl (.cachePermissions _ _) => False
  | .inl (.clearCache _) => False
  | _ => True

/-- Only tables with one of the ids have other rows than before. -/
structure WritesOnly (ids : JsString → Prop) (world world' : World) : Prop where
  tables : world'.tables = world.tables
  cache : world'.cache = world.cache
  clock : world.clock ≤ world'.clock
  elsewhere : ∀ tableId, ¬ ids tableId → world'.rows tableId = world.rows tableId

section

variable {ids : JsString → Prop} {order : SortOrder} {faults : Bool}
  {world world' world'' : World}

namespace WritesOnly

theorem of_unchanged (h : Unchanged world world') : WritesOnly ids world world' :=
  ⟨h.tables, h.cache, h.clock, fun _ _ => by rw [h.rows]⟩

theorem trans (h : WritesOnly ids world world') (h' : WritesOnly ids world' world'') :
    WritesOnly ids world world'' where
  tables := h'.tables.trans h.tables
  cache := h'.cache.trans h.cache
  clock := h.clock.trans h'.clock
  elsewhere tableId hother := (h'.elsewhere tableId hother).trans (h.elsewhere tableId hother)

theorem of_setTable {tableId : JsString} {table : Table} (h : Unchanged world world')
    (hid : ids tableId) : WritesOnly ids world (world'.setTable tableId table) where
  tables := h.tables
  cache := h.cache
  clock := h.clock
  elsewhere other hother := by
    have hne : other ≠ tableId := by
      rintro rfl
      exact hother hid
    rw [World.rows_setTable_of_ne _ _ hne, h.rows]

/-- Where no table may be written to, nothing is. -/
theorem unchanged (h : WritesOnly (fun _ => False) world world') : Unchanged world world' where
  tables := h.tables
  rows := funext fun tableId => h.elsewhere tableId not_false
  cache := h.cache
  clock := h.clock

end WritesOnly

/-- What one request does. -/
theorem writesOnly_of_step {op : Op ⊕ PageOp} {result : Except Exception (Sum.elim Res PageRes op)}
    (hop : WritesTo ids op)
    (h : (pagedNocodb order faults).contract.step op world result world') :
    WritesOnly ids world world' := by
  cases op with
  | inr op =>
      obtain ⟨choice, -, hrespond⟩ := h
      have hpaged : pagedRespond order choice world (.inr op) = (result, world') := hrespond
      obtain rfl : (pagedRespond order choice world (.inr op)).2 = world' := by rw [hpaged]
      have hunchanged := Unchanged.advance world choice.elapsed
      rw [pagedRespond]
      split
      · exact .of_unchanged hunchanged
      · exact .of_unchanged hunchanged
  | inl op =>
      have hstep : (nocodb faults).contract.step op world result world' := h
      obtain ⟨choice, earlier, hearlier, ⟨-, -, rfl⟩ | hanswer⟩ := answer_of_step hstep
      · exact .of_unchanged hearlier
      · obtain rfl : (answer choice earlier op).2 = world' := by rw [hanswer]
        cases op with
        | create tableId data =>
            rw [answer]
            split
            · exact .of_setTable hearlier hop
            · exact .of_unchanged hearlier
        | update tableId recordId data =>
            rw [answer]
            split
            · exact .of_unchanged hearlier
            · exact .of_setTable hearlier hop
        | delete tableId recordId =>
            rw [answer]
            split
            · exact .of_unchanged hearlier
            · exact .of_setTable hearlier hop
        | cachePermissions userId value => exact hop.elim
        | clearCache userId => exact hop.elim
        | list tableId filter limit =>
            rw [answer]
            split
            · exact .of_unchanged hearlier
            · exact .of_unchanged hearlier
        | listAll tableId filter fields =>
            rw [answer]
            split
            · exact .of_unchanged hearlier
            · exact .of_unchanged hearlier
        | _ => exact .of_unchanged hearlier

/-- A program leaves the tables alone that it does not write to. -/
theorem wp_writesOnly {α : Type} {program : Paging α} (h : program.Uses (WritesTo ids)) :
    wp (pagedNocodb order faults).contract program (fun _ => WritesOnly ids world) world :=
  wp_of_uses (fun world => .of_unchanged (Unchanged.refl world)) (fun h h' => h.trans h')
    (fun _ _ _ => trivial) (fun _ _ _ _ hop hstep => writesOnly_of_step hop hstep) h world

/-! ## The methods of `NocoDBService` -/

theorem uses_getTableByName {tablePrefix tableName : JsString} :
    (getTableByName tablePrefix tableName).Uses fun op => WritesTo ids (.inl op) :=
  (Program.uses_call trivial).bind fun _ => trivial

theorem uses_listAll {tableId filter : JsString} {fields : Option (List JsString)} :
    (listAll tableId filter fields).Uses fun op => WritesTo ids (.inl op) :=
  Program.uses_call trivial

theorem uses_listWith {tableId : JsString} {options : FilterOptions} :
    (listWith tableId options).Uses (WritesTo ids) := by
  have hrequest : ∀ op : PageOp, (.perform (Sum.inr op) Program.done : Paging (PageRes op)).Uses
      (WritesTo ids) := fun _ => ⟨trivial, fun _ => trivial⟩
  unfold listWith
  apply (hrequest _).bind
  intro list
  split
  · apply (hrequest _).bind
    intro totalRows
    trivial
  · trivial

end

end Store
end NocoMiddleware
