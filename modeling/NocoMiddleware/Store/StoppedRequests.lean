import NocoMiddleware.Foundation.Crash
import NocoMiddleware.Store.Changes

/-!
# Requests of runs that may be stopped

Each method of `NocoDBService` is a single request, so the rules for complete runs apply to
runs that may be stopped once the crash condition is known before and after the request.
The rules speak of an earlier world from which nothing has changed since.
-/

namespace NocoMiddleware
namespace Store

open NocoMiddleware.Js NocoMiddleware.Filter NocoMiddleware.Tables NocoMiddleware.Foundation

theorem single_getTableByName (tablePrefix tableName : JsString) :
    (getTableByName tablePrefix tableName).Single :=
  (Program.single_call _).map _

theorem single_findOne (tableId filter : JsString) : (findOne tableId filter).Single :=
  (Program.single_call _).map _

section

variable {faults : Bool} {tablePrefix : JsString} {first world : World} {crash : World → Prop}

/-- A service that needs a system table stops if the name does not resolve, or if the request
fails. -/
theorem wpc_requiredTable {α : Type} {tableName : JsString} {next : TableMeta → Service α}
    {post : Except Exception α → World → Prop} (hfirst : Unchanged first world)
    (hcrash : ∀ world', Unchanged first world' → crash world')
    (hfail : ∀ exception world',
      (faults = false → resolve tablePrefix first.tables tableName = none) →
      Unchanged first world' → post (.error exception) world')
    (hnext : ∀ found world', resolve tablePrefix first.tables tableName = some found →
      Unchanged first world' → wpc (nocodb faults).contract crash (next found) post world') :
    wpc (nocodb faults).contract crash
      (getTableByName tablePrefix tableName >>= fun table => assertTableRef table >>= next)
      post world := by
  apply wpc_single_bind (single_getTableByName _ _) (hcrash world hfirst)
  apply wp_getTableByName
  · intro hfaults world' h
    have hunchanged := hfirst.trans h
    refine ⟨hcrash world' hunchanged, hfail _ world' (fun hnot => ?_) hunchanged⟩
    rw [hfaults] at hnot
    contradiction
  · intro world' h
    have hunchanged := hfirst.trans h
    rw [onOk_ok, hfirst.tables]
    apply wpc_bind
    cases hresolve : resolve tablePrefix first.tables tableName with
    | none =>
        exact ⟨hcrash world' hunchanged, hfail _ world' (fun _ => hresolve) hunchanged⟩
    | some found => exact ⟨hcrash world' hunchanged, hnext found world' hresolve hunchanged⟩

/-- A lookup by one field finds the first row with the value. -/
theorem wpc_findOne {α : Type} {tableId field filter : JsString} {value : JsValue}
    {next : Option NocoRecord → Service α} {post : Except Exception α → World → Prop}
    (hfilter : filterEqValue field value = .ok filter) (hfirst : Unchanged first world)
    (hcrash : ∀ world', Unchanged first world' → crash world')
    (hfail : faults = true → ∀ world', Unchanged first world' → post (.error .upstream) world')
    (hnext : ∀ world', Unchanged first world' → wpc (nocodb faults).contract crash
      (next (((first.rows tableId).rows.find? fun row =>
        satisfies row (eqCondition field value)).map (flattenRecord none))) post world') :
    wpc (nocodb faults).contract crash (findOne tableId filter >>= next) post world := by
  apply wpc_single_bind (single_findOne _ _) (hcrash world hfirst)
  apply wp_findOne_find (selectRows_filterEqValue hfilter)
  · intro hfaults world' h
    have hunchanged := hfirst.trans h
    exact ⟨hcrash world' hunchanged, hfail hfaults world' hunchanged⟩
  · intro world' h
    rw [onOk_ok, hfirst.rows]
    exact hnext world' (hfirst.trans h)

end

end Store
end NocoMiddleware
