import NocoMiddleware.Store.Changes

/-!
# What a single step may change

When calls are interleaved, nothing is known of the program that takes the next
step.  Here is what any step leaves alone: no step changes the list of tables, only
writes change rows, and an entry of the cache becomes live only by an insertion.
-/

namespace NocoMiddleware
namespace Store

open NocoMiddleware.Js NocoMiddleware.Filter NocoMiddleware.Tables NocoMiddleware.Permissions
open NocoMiddleware.Foundation

/-- The step ends the life of the entry that the cache had for the user. -/
def Op.dropsEntry (op : Op) (userId : JsNumber) : Bool :=
  match op with
  | .cachePermissions other _ => other = userId
  | .clearCache cleared => Covers cleared userId
  | _ => false

section

variable {faults : Bool} {op : Op} {world world' : World} {result : Except Exception (Res op)}

/-- After some time, a request fails or a step is answered. -/
theorem answer_of_step (h : (nocodb faults).contract.step op world result world') :
    ∃ choice earlier, Unchanged world earlier ∧
      ((op.isRequest = true ∧ result = .error .upstream ∧ world' = earlier) ∨
        answer choice earlier op = (result, world')) := by
  obtain ⟨choice, -, hrespond⟩ := h
  refine ⟨choice, world.advance choice.elapsed, Unchanged.advance _ _, ?_⟩
  simp only [nocodb, respond] at hrespond
  split at hrespond
  · next hfails =>
      obtain ⟨rfl, rfl⟩ := Prod.mk.inj hrespond
      rw [Bool.and_eq_true] at hfails
      exact Or.inl ⟨hfails.2, rfl, rfl⟩
  · exact Or.inr hrespond

theorem tables_of_step (h : (nocodb faults).contract.step op world result world') :
    world'.tables = world.tables := by
  obtain ⟨choice, earlier, hearlier, ⟨-, rfl, rfl⟩ | hanswer⟩ := answer_of_step h
  · exact hearlier.tables
  · obtain rfl : (answer choice earlier op).2 = world' := by rw [hanswer]
    rw [← hearlier.tables]
    cases op <;> simp only [answer] <;> (try split) <;>
      simp only [World.tables_setTable, World.tables_setCache]

theorem rows_of_step (h : (nocodb faults).contract.step op world result world')
    (hop : op.isWrite = false) : world'.rows = world.rows := by
  obtain ⟨choice, earlier, hearlier, ⟨-, rfl, rfl⟩ | hanswer⟩ := answer_of_step h
  · exact hearlier.rows
  · obtain rfl : (answer choice earlier op).2 = world' := by rw [hanswer]
    rw [← hearlier.rows]
    cases op with
    | create tableId data => contradiction
    | update tableId recordId data => contradiction
    | delete tableId recordId => contradiction
    | _ => simp only [answer] <;> (try split) <;> simp only [World.rows_setCache]

theorem systemRows_of_step {tablePrefix : JsString} {table : SystemTable}
    (h : (nocodb faults).contract.step op world result world') (hop : op.isWrite = false) :
    systemRows tablePrefix world' table = systemRows tablePrefix world table := by
  simp only [systemRows, tables_of_step h, rows_of_step h hop]

/-- An entry that is live after a step has just been inserted, or was live before and
the step has not dropped it. -/
theorem live_of_step {userId : JsNumber} {value : UserPermissions}
    (h : (nocodb faults).contract.step op world result world')
    (hlive : world'.cache.live world'.clock userId = some value) :
    op = .cachePermissions userId value ∨
      (op.dropsEntry userId = false ∧ world.cache.live world.clock userId = some value) := by
  obtain ⟨choice, earlier, hearlier, ⟨hrequest, -, rfl⟩ | hanswer⟩ := answer_of_step h
  · refine Or.inr ⟨?_, hearlier.live hlive⟩
    cases op with
    | cachePermissions other inserted => contradiction
    | clearCache cleared => contradiction
    | _ => rfl
  · obtain rfl : (answer choice earlier op).2 = world' := by rw [hanswer]
    -- an answer that leaves the cache and the clock leaves the entry
    have hkept : op.dropsEntry userId = false →
        (answer choice earlier op).2.cache = earlier.cache →
          (answer choice earlier op).2.clock = earlier.clock →
            op = .cachePermissions userId value ∨
              (op.dropsEntry userId = false ∧
                world.cache.live world.clock userId = some value) := by
      intro hop hcache hclock
      rw [hcache, hclock] at hlive
      exact Or.inr ⟨hop, hearlier.live hlive⟩
    cases op with
    | cachePermissions other inserted =>
        simp only [answer, World.cache_setCache, World.clock_setCache] at hlive
        rcases PermissionsCache.live_cachePermissions hlive with ⟨rfl, rfl⟩ | ⟨hne, hlive⟩
        · exact Or.inl rfl
        · refine Or.inr ⟨?_, hearlier.live hlive⟩
          simpa [Op.dropsEntry] using hne.symm
    | clearCache cleared =>
        simp only [answer, World.cache_setCache, World.clock_setCache] at hlive
        obtain ⟨hcovers, hlive⟩ := (PermissionsCache.live_clear_eq_some_iff _ _ _ _ _).mp hlive
        refine Or.inr ⟨?_, hearlier.live hlive⟩
        simpa [Op.dropsEntry] using hcovers
    | _ =>
        refine hkept rfl ?_ ?_ <;> simp only [answer] <;> (try split) <;>
          simp only [World.cache_setTable, World.clock_setTable]

/-- The records that a listing is answered with are those of selected rows. -/
theorem records_of_list {tableId filter : JsString} {limit : Nat} {records : List NocoRecord}
    (h : (nocodb faults).contract.step (.list tableId filter limit) world (.ok records) world') :
    ∃ rows, selectRows filter (world.rows tableId).rows = some rows ∧
      records = (rows.take limit).map (flattenRecord none) := by
  obtain ⟨choice, earlier, hearlier, ⟨-, hfailed, -⟩ | hanswer⟩ := answer_of_step h
  · contradiction
  · rw [← hearlier.rows]
    simp only [answer] at hanswer
    cases hselect : selectRows filter (earlier.rows tableId).rows with
    | none =>
        rw [hselect] at hanswer
        cases (Prod.mk.inj hanswer).1
    | some rows =>
        rw [hselect] at hanswer
        exact ⟨rows, rfl, (Except.ok.inj (Prod.mk.inj hanswer).1).symm⟩

/-- A lookup that hits has found a live entry. -/
theorem live_of_cacheGet {userId : JsNumber} {value : UserPermissions}
    (h : (nocodb faults).contract.step (.cacheGet userId) world (.ok (some value)) world') :
    world.cache.live world.clock userId = some value := by
  obtain ⟨choice, earlier, hearlier, ⟨hrequest, -, -⟩ | hanswer⟩ := answer_of_step h
  · contradiction
  · simp only [answer, Prod.mk.injEq, Except.ok.injEq] at hanswer
    exact hearlier.live hanswer.1

end

end Store
end NocoMiddleware
