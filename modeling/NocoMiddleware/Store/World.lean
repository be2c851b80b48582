import Mathlib.Data.Fintype.EquivFin
import NocoMiddleware.Foundation.Program
import NocoMiddleware.Permissions.PermissionsCache
import NocoMiddleware.Store.Record
import NocoMiddleware.Tables.Resolution

/-!
# The world of the services

The services act on NocoDB, on the permission cache and on the clock.  `Op` lists
the single steps they take: a request to NocoDB, or a synchronous piece of code on
the cache.  `nocodb` answers them.  A request may fail when faults are allowed,
and a failed request is not applied; a created row gets any key that its table
does not hold; the clock may advance by any amount at every step.

`listAll` is one step here: NocoDB answers it with all matching rows.  The service asks for pages of
1000, so where other steps come between the steps of a program, this is a listing of one page.
-/

namespace NocoMiddleware
namespace Store

open NocoMiddleware.Js NocoMiddleware.Filter NocoMiddleware.Tables NocoMiddleware.Permissions
open NocoMiddleware.Foundation

/-- The steps of the services. -/
inductive Op where
  | listTables
  | list (tableId filter : JsString) (limit : Nat)
  | listAll (tableId filter : JsString) (fields : Option (List JsString))
  | read (tableId : JsString) (recordId : JsNumber)
  | create (tableId : JsString) (data : Payload)
  | update (tableId : JsString) (recordId : JsNumber) (data : Payload)
  | delete (tableId : JsString) (recordId : JsNumber)
  | cacheGet (userId : JsNumber)
  | cachePermissions (userId : JsNumber) (value : UserPermissions)
  | clearCache (userId : Option JsNumber)
  | newDate
  | hashPassword (password : JsString)
  deriving DecidableEq

/-- The answers of the steps. -/
@[reducible] def Res : Op → Type
  | .listTables => List TableMeta
  | .list _ _ _ => List NocoRecord
  | .listAll _ _ _ => List NocoRecord
  | .read _ _ => Option NocoRecord
  | .create _ _ => NocoRecord
  | .update _ _ _ => NocoRecord
  | .delete _ _ => Unit
  | .cacheGet _ => Option UserPermissions
  | .cachePermissions _ _ => Unit
  | .clearCache _ => Unit
  | .newDate => JsString
  | .hashPassword _ => JsString

namespace Op

/-- The step is a request to NocoDB. -/
def isRequest : Op → Bool
  | listTables => true
  | list _ _ _ => true
  | listAll _ _ _ => true
  | read _ _ => true
  | create _ _ => true
  | update _ _ _ => true
  | delete _ _ => true
  | _ => false

/-- The step is a request that changes a table. -/
def isWrite : Op → Bool
  | create _ _ => true
  | update _ _ _ => true
  | delete _ _ => true
  | _ => false

/-- The table in which the step creates a row. -/
def createsIn : Op → Option JsString
  | create tableId _ => some tableId
  | _ => none

end Op

/-- Programs of the services. -/
abbrev Service := Program Op Res Exception

/-- The state of NocoDB, of the permission cache and of the clock. -/
structure World where
  tables : List TableMeta
  rows : JsString → Table
  cache : PermissionsCache
  clock : Nat

namespace World

/-- The world with the system tables and the given contents of tables, an empty cache
and the clock at zero. -/
def holding (tablePrefix : JsString) (contents : List (JsString × Table)) : World where
  tables := systemTables tablePrefix
  rows tableId := (contents.lookup tableId).getD Table.empty
  cache := .empty
  clock := 0

/-- Time passes. -/
def advance (world : World) (elapsed : Nat) : World :=
  { world with clock := world.clock + elapsed }

/-- The world with the content of one table replaced. -/
def setTable (world : World) (tableId : JsString) (table : Table) : World :=
  { world with rows := Function.update world.rows tableId table }

/-- The world with the cache replaced. -/
def setCache (world : World) (cache : PermissionsCache) : World :=
  { world with cache := cache }

@[simp] theorem tables_advance (world : World) (elapsed : Nat) :
    (world.advance elapsed).tables = world.tables := rfl

@[simp] theorem rows_advance (world : World) (elapsed : Nat) :
    (world.advance elapsed).rows = world.rows := rfl

@[simp] theorem cache_advance (world : World) (elapsed : Nat) :
    (world.advance elapsed).cache = world.cache := rfl

@[simp] theorem clock_advance (world : World) (elapsed : Nat) :
    (world.advance elapsed).clock = world.clock + elapsed := rfl

@[simp] theorem tables_setTable (world : World) (tableId : JsString) (table : Table) :
    (world.setTable tableId table).tables = world.tables := rfl

@[simp] theorem rows_setTable_self (world : World) (tableId : JsString) (table : Table) :
    (world.setTable tableId table).rows tableId = table :=
  Function.update_self _ _ _

theorem rows_setTable_of_ne (world : World) {tableId other : JsString} (table : Table)
    (hne : other ≠ tableId) : (world.setTable tableId table).rows other = world.rows other :=
  Function.update_of_ne hne _ _

@[simp] theorem cache_setTable (world : World) (tableId : JsString) (table : Table) :
    (world.setTable tableId table).cache = world.cache := rfl

@[simp] theorem clock_setTable (world : World) (tableId : JsString) (table : Table) :
    (world.setTable tableId table).clock = world.clock := rfl

@[simp] theorem tables_setCache (world : World) (cache : PermissionsCache) :
    (world.setCache cache).tables = world.tables := rfl

@[simp] theorem rows_setCache (world : World) (cache : PermissionsCache) :
    (world.setCache cache).rows = world.rows := rfl

@[simp] theorem cache_setCache (world : World) (cache : PermissionsCache) :
    (world.setCache cache).cache = cache := rfl

@[simp] theorem clock_setCache (world : World) (cache : PermissionsCache) :
    (world.setCache cache).clock = world.clock := rfl

end World

/-- The free choices in the answer to a step: whether the request fails, the key
of a new row, a text (a time stamp or a password hash) and the time that
passes. -/
structure Choice where
  fails : Bool
  newId : Nat
  text : JsString
  elapsed : Nat

/-- `NocoDBException.recordNotFound`. -/
def recordNotFound (tableId : JsString) (recordId : JsNumber) : Exception :=
  .nocoDB (js "Record with ID '" ++ recordId.text ++ js "' not found in table '" ++
    tableId ++ js "'")

/-- The answer to a step that does not fail. -/
def answer (choice : Choice) (world : World) : (op : Op) → Except Exception (Res op) × World
  | .listTables => (.ok world.tables, world)
  | .list tableId filter limit =>
      match selectRows filter (world.rows tableId).rows with
      | none => (.error .upstream, world)
      | some rows => (.ok ((rows.take limit).map (flattenRecord none)), world)
  | .listAll tableId filter fields =>
      match selectRows filter (world.rows tableId).rows with
      | none => (.error .upstream, world)
      | some rows => (.ok (rows.map (flattenRecord fields)), world)
  | .read tableId recordId =>
      (.ok (((world.rows tableId).find recordId).map (flattenRecord none)), world)
  | .create tableId data =>
      if h : 0 < choice.newId ∧ choice.newId ∉ (world.rows tableId).rows.map Row.id then
        let row : Row := ⟨choice.newId, h.1, toCells data⟩
        (.ok (flattenRecord none row), world.setTable tableId ((world.rows tableId).insert row h.2))
      else (.error .upstream, world)
  | .update tableId recordId data =>
      match (world.rows tableId).find recordId with
      | none => (.error (recordNotFound tableId recordId), world)
      | some row =>
          (.ok (flattenRecord none (row.patch data)),
            world.setTable tableId ((world.rows tableId).update recordId data))
  | .delete tableId recordId =>
      match (world.rows tableId).find recordId with
      | none => (.error (recordNotFound tableId recordId), world)
      | some _ =>
          (.ok (), world.setTable tableId ((world.rows tableId).delete recordId))
  | .cacheGet userId => (.ok (world.cache.live world.clock userId), world)
  | .cachePermissions userId value =>
      (.ok (), world.setCache (world.cache.cachePermissions world.clock userId value))
  | .clearCache userId => (.ok (), world.setCache (world.cache.clear userId))
  | .newDate => (.ok choice.text, world)
  | .hashPassword _ => (.ok choice.text, world)

/-- The answer to a step: after the time that passes, a failing request is not
applied. -/
def respond (choice : Choice) (op : Op) (world : World) : Except Exception (Res op) × World :=
  if choice.fails && op.isRequest then (.error .upstream, world.advance choice.elapsed)
  else answer choice (world.advance choice.elapsed) op

/-- The choices that NocoDB may make: it fails only when faults are allowed, and a
new key is not in use. -/
def Choice.legal (faults : Bool) (choice : Choice) (op : Op) (world : World) : Bool :=
  (!choice.fails || faults) &&
    match op with
    | .create tableId _ =>
        decide (0 < choice.newId) && !((world.rows tableId).rows.map Row.id).contains choice.newId
    | _ => true

/-- NocoDB, the permission cache and the clock as an environment of programs. -/
def nocodb (faults : Bool) : System Op Res Exception World Choice where
  legal choice op world := choice.legal faults op world = true
  respond := respond

instance (faults : Bool) (choice : Choice) (op : Op) (world : World) :
    Decidable ((nocodb faults).legal choice op world) :=
  inferInstanceAs (Decidable (choice.legal faults op world = true))

/-- NocoDB has an answer to every step. -/
theorem nocodb_total (faults : Bool) (op : Op) (world : World) :
    ∃ result world', (nocodb faults).contract.step op world result world' := by
  have hkey : ∃ key, ∀ tableId, op.createsIn = some tableId →
      0 < key ∧ key ∉ (world.rows tableId).rows.map Row.id := by
    cases htable : op.createsIn with
    | none => exact ⟨0, fun _ h => by cases h⟩
    | some tableId =>
        obtain ⟨key, hkey⟩ := Infinite.exists_notMem_finset
          (insert 0 ((world.rows tableId).rows.map Row.id).toFinset)
        rw [Finset.mem_insert, not_or, List.mem_toFinset] at hkey
        refine ⟨key, fun other hother => ?_⟩
        obtain rfl := Option.some.inj hother
        exact ⟨Nat.pos_of_ne_zero hkey.1, hkey.2⟩
  obtain ⟨key, hkey⟩ := hkey
  have hlegal : (⟨false, key, [], 0⟩ : Choice).legal faults op world = true := by
    cases op with
    | create tableId data =>
        obtain ⟨hpositive, hfresh⟩ := hkey tableId rfl
        simpa [Choice.legal, hpositive] using hfresh
    | _ => simp [Choice.legal]
  exact ⟨_, _, _, hlegal, rfl⟩

end Store
end NocoMiddleware
