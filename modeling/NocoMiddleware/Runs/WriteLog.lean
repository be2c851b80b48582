import NocoMiddleware.Foundation.Recording
import NocoMiddleware.Runs.PolicyScripts
import NocoMiddleware.Store.StepEffects

/-!
# The log of the write requests

Every answered write request leaves entries in a log: what it did to the row that it addresses, read
as edits of the policy.  The requests of a call never leave the store but well kept, wherever the
call is stopped, so the policy after a call is the one before it with the edits of its log.
-/

namespace NocoMiddleware
namespace Runs

open NocoMiddleware.Js NocoMiddleware.Filter NocoMiddleware.Tables NocoMiddleware.Store
open NocoMiddleware.Permissions NocoMiddleware.Users NocoMiddleware.Roles NocoMiddleware.Auth
open NocoMiddleware.Foundation

/-! ## Entries -/

/-- The table that a request writes to. -/
def writtenTable : Op → Option JsString
  | .create tableId _ => some tableId
  | .update tableId _ _ => some tableId
  | .delete tableId _ => some tableId
  | _ => none

/-- The id of the row that an answered write request is about; a new row has that of the answer. -/
def writtenId : (op : Op) → Res op → JsNumber
  | .create _ _ => fun record => record.id.toNumber
  | .update _ recordId _ => fun _ => recordId
  | .delete _ recordId => fun _ => recordId
  | _ => fun _ => .nan

/-- The system table with an id. -/
def systemTableOf (tablePrefix : JsString) (world : World) (tableId : JsString) :
    Option SystemTable :=
  SystemTable.all.find? fun table =>
    (resolve tablePrefix world.tables table.name).any fun found => found.id = tableId

/-- The edits that a row of a system table stands for, by what it was and what it is now. -/
def rowEdits (before after : Option Row) : SystemTable → List AccessEdit
  | .users => []
  | .roles =>
      (before.map fun row => .dropRole (.ofNat row.id)).toList ++
        (after.map fun row => .addRole (.ofNat row.id)).toList
  | .userRoles =>
      ((before.bind assignmentKey).map fun key => .unassign key.1 key.2).toList ++
        ((after.bind assignmentKey).map fun key => .assign key.1 key.2).toList
  | .tablePermissions =>
      ((before.bind permissionKey).map fun key => .dropRights key.1 key.2).toList ++
        (after.bind fun row => (permissionKey row).map fun key =>
          .setRights key.1 key.2 (rowRights row)).toList

/-- The entries of a step: none unless it is an answered write to a system table. -/
def requestEdits (tablePrefix : JsString) (op : Op) (world : World)
    (answer : Except Exception (Res op)) (world' : World) : List AccessEdit :=
  match answer with
  | .error _ => []
  | .ok value =>
      (writtenTable op).elim [] fun tableId =>
        (systemTableOf tablePrefix world tableId).elim [] fun table =>
          rowEdits ((world.rows tableId).find (writtenId op value))
            ((world'.rows tableId).find (writtenId op value)) table

/-! ## One row -/

/-- Rows before and after one of them has been written. -/
structure Replaced (rows rows' : List Row) (before after : Option Row) : Prop where
  before_mem : ∀ row, before = some row → row ∈ rows
  mem_iff : ∀ row, row ∈ rows' ↔ (row ∈ rows ∧ before ≠ some row) ∨ after = some row

section

variable {κ : Type} {key : Row → Option κ} {rows rows' : List Row} {before after : Option Row}
  {table : Table} {row : Row}

theorem replaced_insert (h : row.id ∉ table.rows.map Row.id) :
    Replaced table.rows (table.insert row h).rows (table.find (.ofNat row.id))
      ((table.insert row h).find (.ofNat row.id)) := by
  have hbefore : table.find (.ofNat row.id) = none := by
    rw [Option.eq_none_iff_forall_ne_some]
    intro other hother
    obtain ⟨hmem, hid⟩ := (Table.find_ofNat_eq_some_iff _ _ _).mp hother
    exact h (hid ▸ List.mem_map_of_mem hmem)
  have hafter : (table.insert row h).find (.ofNat row.id) = some row := by
    rw [Table.find_ofNat_eq_some_iff, Table.rows_insert]
    exact ⟨List.mem_append_right _ (List.mem_singleton_self row), rfl⟩
  rw [hbefore, hafter]
  refine ⟨nofun, fun other => ?_⟩
  rw [Table.rows_insert, List.mem_append, List.mem_singleton, Option.some_inj, eq_comm]
  simp

theorem replaced_update (payload : Payload) (hrow : row ∈ table.rows) :
    Replaced table.rows (table.update (.ofNat row.id) payload).rows (some row)
      ((table.update (.ofNat row.id) payload).find (.ofNat row.id)) := by
  have hafter : (table.update (.ofNat row.id) payload).find (.ofNat row.id) =
      some (row.patch payload) := by
    rw [Table.find_ofNat_eq_some_iff]
    exact ⟨List.mem_map.mpr ⟨row, hrow, if_pos rfl⟩, rfl⟩
  rw [hafter]
  constructor
  · intro other hother
    obtain rfl := Option.some.inj hother
    exact hrow
  · intro other
    rw [Ne, Option.some_inj, Option.some_inj]
    constructor
    · intro hother
      rcases Table.replaced_of_mem_update hrow hother with ⟨hmem, hne⟩ | rfl
      · exact Or.inl ⟨hmem, Ne.symm hne⟩
      · exact Or.inr rfl
    · rintro (⟨hmem, hne⟩ | rfl)
      · have hid : JsNumber.ofNat row.id ≠ .ofNat other.id := fun heq =>
          hne (Table.eq_of_id_eq hrow hmem (JsNumber.ofNat_inj.mp heq))
        exact List.mem_map.mpr ⟨other, hmem, if_neg hid⟩
      · exact List.mem_map.mpr ⟨row, hrow, if_pos rfl⟩

theorem replaced_delete (hrow : row ∈ table.rows) :
    Replaced table.rows (table.delete (.ofNat row.id)).rows (some row)
      ((table.delete (.ofNat row.id)).find (.ofNat row.id)) := by
  have hafter : (table.delete (.ofNat row.id)).find (.ofNat row.id) = none := by
    rw [Option.eq_none_iff_forall_ne_some]
    intro other hother
    obtain ⟨hmem, hid⟩ := (Table.find_ofNat_eq_some_iff _ _ _).mp hother
    exact (Table.mem_delete.mp hmem).2 hid
  rw [hafter]
  constructor
  · intro other hother
    obtain rfl := Option.some.inj hother
    exact hrow
  · intro other
    rw [Table.mem_delete, or_iff_left nofun]
    constructor
    · rintro ⟨hmem, hid⟩
      exact ⟨hmem, fun heq => hid (congrArg Row.id (Option.some.inj heq)).symm⟩
    · rintro ⟨hmem, hne⟩
      exact ⟨hmem, fun hid => hne (congrArg some (Table.eq_of_id_eq hrow hmem hid.symm))⟩

/-- A key is that of a row if it was and the row has not been replaced, or if it is the key of the
new row. -/
theorem Replaced.key_iff (h : Replaced rows rows' before after) (hunique : UniqueKeys key rows)
    (k : κ) :
    (∃ row ∈ rows', key row = some k) ↔
      ((∃ row ∈ rows, key row = some k) ∧ before.bind key ≠ some k) ∨
        after.bind key = some k := by
  constructor
  · rintro ⟨row, hmem, hkey⟩
    rcases (h.mem_iff row).mp hmem with ⟨hold, hne⟩ | rfl
    · refine Or.inl ⟨⟨row, hold, hkey⟩, fun hbefore => ?_⟩
      obtain ⟨old, rfl, holdKey⟩ := Option.bind_eq_some_iff.mp hbefore
      exact hne (congrArg some (hunique k _ (h.before_mem _ rfl) _ hold holdKey hkey))
    · exact Or.inr hkey
  · rintro (⟨⟨row, hmem, hkey⟩, hbefore⟩ | hafter)
    · refine ⟨row, (h.mem_iff row).mpr (Or.inl ⟨hmem, ?_⟩), hkey⟩
      rintro rfl
      exact hbefore hkey
    · obtain ⟨row, rfl, hkey⟩ := Option.bind_eq_some_iff.mp hafter
      exact ⟨row, (h.mem_iff row).mpr (Or.inr rfl), hkey⟩

end

/-! ## One request -/

section

variable {unicode : UnicodeClasses} {tablePrefix : JsString} {faults : Bool}
  {world world' : World} {before after : Option Row}

/-- Only some rows of one system table have been written, those of a single id. -/
structure OneRowWritten (tablePrefix : JsString) (table : SystemTable) (before after : Option Row)
    (world world' : World) : Prop where
  tables : world'.tables = world.tables
  elsewhere : ∀ other, other ≠ table →
    systemRows tablePrefix world' other = systemRows tablePrefix world other
  replaced : Replaced (systemRows tablePrefix world table) (systemRows tablePrefix world' table)
    before after

/-- The keys of the rows of a table are numbers of their own. -/
theorem uniqueKeys_id (table : SystemTable) :
    UniqueKeys (fun row => some (JsNumber.ofNat row.id)) (systemRows tablePrefix world table) := by
  intro key first hfirst second hsecond hkey hother
  apply eq_of_mem_systemRows hfirst hsecond
  exact JsNumber.ofNat_inj.mp (Option.some.inj (hkey.trans hother.symm))

/-- A written role is dropped, and there is what it is now. -/
theorem roles_rowEdits (h : OneRowWritten tablePrefix .roles before after world world') :
    (policyOf tablePrefix world').roles =
      ((policyOf tablePrefix world).edits (rowEdits before after .roles)).roles := by
  apply Set.ext
  intro role
  have hkeys := h.replaced.key_iff (uniqueKeys_id .roles) role
  simp only [Option.some_inj] at hkeys
  rw [mem_roles_policyOf, hkeys, RolePolicy.mem_roles_edits, ← mem_roles_policyOf]
  cases before <;> cases after <;>
    simp [rowEdits, PolicyEdit.presence, eq_comm] <;> grind

/-- A written assignment is taken back, and there is what it is now. -/
theorem assigned_rowEdits (h : OneRowWritten tablePrefix .userRoles before after world world')
    (hkept : WellKept unicode tablePrefix world) :
    (policyOf tablePrefix world').assigned =
      ((policyOf tablePrefix world).edits (rowEdits before after .userRoles)).assigned := by
  have hassigned : ∀ (rows : List Row) (userId roleId : JsNumber),
      RoleAssigned userId roleId rows ↔
        ∃ row ∈ rows, assignmentKey row = some (userId, roleId) := by
    intro rows userId roleId
    simp only [assignmentKey_eq_some_iff]
    exact Iff.rfl
  apply Set.ext
  rintro ⟨userId, roleId⟩
  rw [mem_assigned_policyOf, hassigned, h.replaced.key_iff hkept.assignments,
    RolePolicy.mem_assigned_edits, mem_assigned_policyOf, ← hassigned, rowEdits]
  cases before.bind assignmentKey <;> cases after.bind assignmentKey <;>
    simp [PolicyEdit.assignment, eq_comm, Prod.ext_iff] <;> grind

/-- What the edits of a permission row leave of the rights of a role on a table. -/
theorem lastWrite_rowEdits (before after : Option Row) (roleId : JsNumber) (name : JsString)
    (initial : Option (Set CrudAction)) :
    lastWrite (PolicyEdit.tableRights roleId name) initial
        (rowEdits before after .tablePermissions) =
      if after.bind permissionKey = some (roleId, name) then after.map rowRights
      else if before.bind permissionKey = some (roleId, name) then none
      else initial := by
  have hdropped : lastWrite (PolicyEdit.tableRights roleId name) initial
      ((before.bind permissionKey).map fun key =>
        (.dropRights key.1 key.2 : AccessEdit)).toList =
      if before.bind permissionKey = some (roleId, name) then none else initial := by
    cases before.bind permissionKey with
    | none => rfl
    | some key =>
        by_cases hsame : roleId = key.1 ∧ name = key.2
        · simp [PolicyEdit.tableRights, hsame]
        · have hne : key ≠ (roleId, name) := fun heq => hsame (by rw [heq]; exact ⟨rfl, rfl⟩)
          simp [PolicyEdit.tableRights, hsame, hne]
  rw [rowEdits, lastWrite, List.foldl_append, ← lastWrite, ← lastWrite, hdropped]
  cases after with
  | none => rfl
  | some row =>
      rw [Option.bind_some, Option.bind_some]
      cases permissionKey row with
      | none => rfl
      | some key =>
          by_cases hsame : roleId = key.1 ∧ name = key.2
          · simp [PolicyEdit.tableRights, hsame]
          · have hne : key ≠ (roleId, name) := fun heq => hsame (by rw [heq]; exact ⟨rfl, rfl⟩)
            simp [PolicyEdit.tableRights, hsame, hne]

/-- The rights of a written permission row are dropped, and there are what they are now. -/
theorem rights_rowEdits (h : OneRowWritten tablePrefix .tablePermissions before after world world')
    (hkept : WellKept unicode tablePrefix world) (hkept' : WellKept unicode tablePrefix world') :
    (policyOf tablePrefix world').rights =
      ((policyOf tablePrefix world).edits (rowEdits before after .tablePermissions)).rights := by
  funext roleId name
  rw [RolePolicy.rights_edits, lastWrite_rowEdits]
  by_cases hafter : after.bind permissionKey = some (roleId, name)
  · obtain ⟨row, rfl, hkey⟩ := Option.bind_eq_some_iff.mp hafter
    rw [if_pos hafter, Option.map_some]
    apply (rights_policyOf hkept'.permissions).mpr
    exact ⟨row, (h.replaced.mem_iff row).mpr (Or.inr rfl), hkey, rfl⟩
  rw [if_neg hafter]
  by_cases hbefore : before.bind permissionKey = some (roleId, name)
  · -- no other row has the key
    rw [if_pos hbefore, Option.eq_none_iff_forall_ne_some]
    intro actions hactions
    obtain ⟨row, hrow, hkey, -⟩ := (rights_policyOf hkept'.permissions).mp hactions
    rcases (h.replaced.key_iff hkept.permissions _).mp ⟨row, hrow, hkey⟩ with ⟨-, hnot⟩ | hnew
    · exact hnot hbefore
    · exact hafter hnew
  · rw [if_neg hbefore]
    apply Option.ext
    intro actions
    rw [rights_policyOf hkept'.permissions, rights_policyOf hkept.permissions]
    apply exists_congr
    intro row
    rw [← and_assoc, ← and_assoc]
    apply and_congr_left
    intro _
    apply and_congr_left
    intro hkey
    rw [h.replaced.mem_iff]
    constructor
    · rintro (⟨hmem, -⟩ | rfl)
      · exact hmem
      · exact absurd hkey hafter
    · intro hmem
      refine Or.inl ⟨hmem, ?_⟩
      rintro rfl
      exact hbefore hkey

/-- The edits of a permission row are about rights only. -/
theorem edits_rowEdits_permissions (policy : AccessPolicy) (before after : Option Row) :
    (policy.edits (rowEdits before after .tablePermissions)).roles = policy.roles ∧
      (policy.edits (rowEdits before after .tablePermissions)).assigned = policy.assigned := by
  rw [rowEdits, RolePolicy.edits_append]
  have hdropped : ∀ key : Option (JsNumber × JsString),
      (policy.edits (key.map fun key => .dropRights key.1 key.2).toList).roles = policy.roles ∧
        (policy.edits (key.map fun key => .dropRights key.1 key.2).toList).assigned =
          policy.assigned := by
    intro key
    cases key <;> exact ⟨rfl, rfl⟩
  cases after with
  | none => exact hdropped _
  | some row =>
      rw [Option.bind_some]
      cases permissionKey row with
      | none => exact hdropped _
      | some key => exact hdropped _

/-- What was done to one row of a system table is what its edits say. -/
theorem simulates_oneRow {table : SystemTable}
    (h : OneRowWritten tablePrefix table before after world world')
    (hkept : WellKept unicode tablePrefix world) (hkept' : WellKept unicode tablePrefix world') :
    Simulates unicode tablePrefix world (rowEdits before after table) world' := by
  refine ⟨h.tables, hkept', ?_⟩
  cases table with
  | users =>
      show policyOf tablePrefix world' = policyOf tablePrefix world
      simp only [policyOf, h.elsewhere _ (by decide : SystemTable.roles ≠ .users),
        h.elsewhere _ (by decide : SystemTable.userRoles ≠ .users),
        h.elsewhere _ (by decide : SystemTable.tablePermissions ≠ .users)]
  | roles =>
      apply RolePolicy.ext
      · exact roles_rowEdits h
      · simp only [policyOf, h.elsewhere _ (by decide : SystemTable.userRoles ≠ .roles)]
        cases before <;> cases after <;> rfl
      · simp only [policyOf, h.elsewhere _ (by decide : SystemTable.tablePermissions ≠ .roles)]
        cases before <;> cases after <;> rfl
  | userRoles =>
      apply RolePolicy.ext
      · simp only [policyOf, h.elsewhere _ (by decide : SystemTable.roles ≠ .userRoles), rowEdits]
        cases before.bind assignmentKey <;> cases after.bind assignmentKey <;> rfl
      · exact assigned_rowEdits h hkept
      · simp only [policyOf, h.elsewhere _ (by decide : SystemTable.tablePermissions ≠ .userRoles),
          rowEdits]
        cases before.bind assignmentKey <;> cases after.bind assignmentKey <;> rfl
  | tablePermissions =>
      obtain ⟨hroles, hassigned⟩ :=
        edits_rowEdits_permissions (policyOf tablePrefix world) before after
      apply RolePolicy.ext
      · rw [hroles]
        simp only [policyOf, h.elsewhere _ (by decide : SystemTable.roles ≠ .tablePermissions)]
      · rw [hassigned]
        simp only [policyOf, h.elsewhere _ (by decide : SystemTable.userRoles ≠ .tablePermissions)]
      · exact rights_rowEdits h hkept hkept'

/-- An answered write changes one row of its table. -/
theorem replaced_of_step {op : Op} {value : Res op} {tableId : JsString}
    (h : (nocodb faults).contract.step op world (.ok value) world')
    (htable : writtenTable op = some tableId) :
    ∃ earlier content, Unchanged world earlier ∧ world' = earlier.setTable tableId content ∧
      Replaced (world.rows tableId).rows content.rows
        ((world.rows tableId).find (writtenId op value)) (content.find (writtenId op value)) := by
  obtain ⟨choice, earlier, hearlier, ⟨-, hfailed, -⟩ | hanswer⟩ := answer_of_step h
  · contradiction
  rw [← hearlier.rows]
  cases op with
  | create written data =>
      obtain rfl := Option.some.inj htable
      rw [answer] at hanswer
      split at hanswer
      · next hnew =>
          obtain ⟨hvalue, rfl⟩ := Prod.mk.inj hanswer
          obtain rfl := Except.ok.inj hvalue
          exact ⟨earlier, _, hearlier, rfl, replaced_insert hnew.2⟩
      · cases (Prod.mk.inj hanswer).1
  | update written recordId data =>
      obtain rfl := Option.some.inj htable
      rw [answer] at hanswer
      split at hanswer
      · cases (Prod.mk.inj hanswer).1
      · next row hfind =>
          obtain ⟨hvalue, rfl⟩ := Prod.mk.inj hanswer
          obtain ⟨hmem, rfl⟩ := of_find hfind
          refine ⟨earlier, _, hearlier, rfl, ?_⟩
          show Replaced _ _ ((earlier.rows written).find (.ofNat row.id)) _
          rw [hfind]
          exact replaced_update data hmem
  | delete written recordId =>
      obtain rfl := Option.some.inj htable
      rw [answer] at hanswer
      split at hanswer
      · cases (Prod.mk.inj hanswer).1
      · next row hfind =>
          obtain ⟨hvalue, rfl⟩ := Prod.mk.inj hanswer
          obtain ⟨hmem, rfl⟩ := of_find hfind
          refine ⟨earlier, _, hearlier, rfl, ?_⟩
          show Replaced _ _ ((earlier.rows written).find (.ofNat row.id)) _
          rw [hfind]
          exact replaced_delete hmem
  | _ => contradiction

/-- A step that is answered with an exception changes nothing. -/
theorem unchanged_of_failed_step {op : Op} {exception : Exception}
    (h : (nocodb faults).contract.step op world (.error exception) world') :
    Unchanged world world' := by
  obtain ⟨choice, earlier, hearlier, ⟨-, -, rfl⟩ | hanswer⟩ := answer_of_step h
  · exact hearlier
  have hsame : world' = earlier := by
    cases op <;> rw [answer] at hanswer
    case create tableId data | list tableId filter limit | listAll tableId filter fields |
        update tableId recordId data | delete tableId recordId =>
      split at hanswer
      all_goals first
        | exact (Prod.mk.inj hanswer).2.symm
        | cases (Prod.mk.inj hanswer).1
    all_goals cases (Prod.mk.inj hanswer).1
  rw [hsame]
  exact hearlier

/-- The system tables other than the written one are left alone. -/
theorem systemRows_setTable_of_ne {earlier : World} {tableId : JsString} {content : Table}
    {table : SystemTable} (h : Unchanged world earlier)
    (hother : ∀ found, resolve tablePrefix world.tables table.name = some found →
      found.id ≠ tableId) :
    systemRows tablePrefix (earlier.setTable tableId content) table =
      systemRows tablePrefix world table := by
  have htables : (earlier.setTable tableId content).tables = world.tables := by
    rw [World.tables_setTable, h.tables]
  cases hfound : resolve tablePrefix world.tables table.name with
  | none => simp only [systemRows, htables, hfound]
  | some found =>
      simp only [systemRows, htables, hfound]
      rw [World.rows_setTable_of_ne _ _ (hother found hfound), h.rows]

/-- The entries of a step are what it does to the policy. -/
theorem simulates_step {op : Op} {result : Except Exception (Res op)}
    (h : (nocodb faults).contract.step op world result world')
    (hkept : WellKept unicode tablePrefix world) (hkept' : WellKept unicode tablePrefix world') :
    Simulates unicode tablePrefix world (requestEdits tablePrefix op world result world')
      world' := by
  have htables := tables_of_step h
  cases result with
  | error exception => exact .unchanged hkept (unchanged_of_failed_step h)
  | ok value =>
      rw [requestEdits]
      cases hwritten : writtenTable op with
      | none =>
          have hop : op.isWrite = false := by
            cases op <;> first | rfl | cases hwritten
          exact .of_systemRows_eq hkept htables fun table => systemRows_of_step h hop
      | some tableId =>
          obtain ⟨earlier, content, hearlier, rfl, hreplaced⟩ := replaced_of_step h hwritten
          rw [Option.elim_some, World.rows_setTable_self]
          cases htable : systemTableOf tablePrefix world tableId with
          | none =>
              apply Simulates.of_systemRows_eq hkept htables
              intro table
              apply systemRows_setTable_of_ne hearlier
              rintro found hfound rfl
              have hnone := List.find?_eq_none.mp htable table (SystemTable.mem_all table)
              rw [hfound] at hnone
              exact hnone (decide_eq_true rfl)
          | some table =>
              have hfind := List.find?_some htable
              obtain ⟨found, hfound, hid⟩ := (Option.any_eq_true _ _).mp hfind
              obtain rfl := of_decide_eq_true hid
              apply simulates_oneRow _ hkept hkept'
              refine ⟨htables, ?_, ?_⟩
              · intro other hother
                apply systemRows_setTable_of_ne hearlier
                intro otherFound hotherFound
                exact hkept.distinct other table hother _ _ hotherFound hfound
              · rw [systemRows_eq hfound, systemRows_eq (by rw [htables]; exact hfound),
                  World.rows_setTable_self]
                exact hreplaced

/-! ## Stopped calls -/

/-- NocoDB may fail at every request, whatever it did before. -/
theorem exists_failing_step (op : Op) (world : World) :
    ∃ result world', (nocodb true).contract.step op world result world' ∧
      world'.tables = world.tables ∧ world'.rows = world.rows := by
  obtain ⟨result, world', hstep⟩ := nocodb_total true op world
  by_cases hrequest : op.isRequest = true
  · obtain ⟨choice, hlegal, -⟩ := hstep
    refine ⟨.error .upstream, world.advance 0,
      ⟨{ choice with fails := true, elapsed := 0 }, ?_, ?_⟩, rfl, rfl⟩
    · have hallowed : choice.legal true op world = true := hlegal
      show Choice.legal true _ op world = true
      simp only [Choice.legal, Bool.or_true, Bool.true_and] at hallowed ⊢
      exact hallowed
    · show respond _ op world = _
      rw [respond, hrequest]
      rfl
  · have hwrite : op.isWrite = false := by
      cases op <;> first | rfl | exact absurd rfl hrequest
    exact ⟨result, world', hstep, tables_of_step hstep, rows_of_step hstep hwrite⟩

/-- If every request fails from now on, no table changes any more. -/
theorem exists_failing_exec {α : Type} (program : Service α) (world : World) :
    ∃ result final, Exec (nocodb true).contract program world result final ∧
      final.tables = world.tables ∧ final.rows = world.rows := by
  induction program generalizing world with
  | done result => exact ⟨result, world, .done result world, rfl, rfl⟩
  | perform op next ih =>
      obtain ⟨answer, middle, hstep, htables, hrows⟩ := exists_failing_step op world
      obtain ⟨result, final, hrest, htables', hrows'⟩ := ih answer middle
      exact ⟨result, final, .perform hstep hrest, htables'.trans htables, hrows'.trans hrows⟩

theorem step_faulty {op : Op} {result : Except Exception (Res op)}
    (h : (nocodb faults).contract.step op world result world') :
    (nocodb true).contract.step op world result world' := by
  obtain ⟨choice, hlegal, hrespond⟩ := h
  refine ⟨choice, ?_, hrespond⟩
  have hallowed : choice.legal faults op world = true := hlegal
  show choice.legal true op world = true
  unfold Choice.legal at hallowed ⊢
  rw [Bool.and_eq_true] at hallowed ⊢
  exact ⟨Bool.or_true _, hallowed.2⟩

/-- Where a program may be stopped, the tables may stay as they are until it ends. -/
theorem exec_of_stops {α : Type} {program : Service α} {middle : World}
    (h : Stops (nocodb faults).contract program world middle) :
    ∃ result final, Exec (nocodb true).contract program world result final ∧
      final.tables = middle.tables ∧ final.rows = middle.rows := by
  induction h with
  | here program world => exact exists_failing_exec program world
  | perform hstep _ ih =>
      obtain ⟨result, final, hrest, hsame⟩ := ih
      exact ⟨result, final, .perform (step_faulty hstep) hrest, hsame⟩

end

/-! ## Calls on record -/

/-- A program whose result does not matter. -/
def ignoreResult {α : Type} (program : Service α) : Service Unit :=
  program >>= fun _ => pure ()

/-- The code of a call. -/
def Call.program (tablePrefix : JsString) : Call → Service Unit
  | .createRole dto => ignoreResult (Roles.createRole tablePrefix dto)
  | .deleteRole roleId => ignoreResult (Roles.deleteRole tablePrefix roleId)
  | .setTablePermissions dto => ignoreResult (Permissions.setTablePermissions tablePrefix dto)
  | .batchSetPermissions dto => ignoreResult (Permissions.batchSetPermissions tablePrefix dto)
  | .copyPermissions sourceRoleId targetRoleId =>
      ignoreResult (Permissions.copyPermissions tablePrefix sourceRoleId targetRoleId)
  | .deleteRolePermissions roleId =>
      ignoreResult (Permissions.deleteRolePermissions tablePrefix roleId)
  | .assignRole dto => ignoreResult (Users.assignRole tablePrefix dto)
  | .assignMultipleRoles dto => ignoreResult (Users.assignMultipleRoles tablePrefix dto)
  | .removeRole userId roleId => ignoreResult (Users.removeRole tablePrefix userId roleId)
  | .createLocalUser dto => ignoreResult (Auth.createLocalUser tablePrefix dto)
  | .bootstrapAdmin configuredToken dto bootstrapToken =>
      ignoreResult (Auth.bootstrapAdmin tablePrefix configuredToken dto bootstrapToken)
  | .seedDefaultPermissions => ignoreResult (Store.seedDefaultPermissions tablePrefix)
  | .getUserPermissions userId => ignoreResult (Permissions.getUserPermissions tablePrefix userId)

section

variable {unicode : UnicodeClasses} {tablePrefix : JsString} {faults : Bool}
  {world world' : World} {visited : List World} {completed : List AccessEdit}
  {result : Except Exception Unit}

theorem completes_of_ignoreResult {α : Type} {program : Service α}
    (h : Exec (nocodb faults).contract (ignoreResult program) world result world') :
    Completes faults program world result.isOk world' := by
  obtain ⟨outcome, middle, hfirst, hrest⟩ := exec_bind h
  cases outcome with
  | ok a =>
      cases hrest
      exact ⟨_, hfirst, rfl⟩
  | error exception =>
      obtain ⟨rfl, rfl⟩ := hrest
      exact ⟨_, hfirst, rfl⟩

/-- An execution of the code of a call performs it. -/
theorem performs_of_program {call : Call}
    (h : Exec (nocodb faults).contract (call.program tablePrefix) world result world') :
    call.Performs tablePrefix faults world result.isOk world' := by
  cases call <;> exact completes_of_ignoreResult h

/-- In no world that a call goes through does an assignment refer to a user that it creates. -/
def KeepsFresh (tablePrefix : JsString) (call : Call) (world : World) (visited : List World) :
    Prop :=
  call.createsUser = true → ∀ middle ∈ visited, FreshUsers tablePrefix world middle

/-- The store is well kept in all worlds that a call goes through: had the call ended there, with
all requests failing, it would be. -/
theorem wellKept_visited {call : Call} (hkept : WellKept unicode tablePrefix world)
    (haccepted : call.Accepted unicode) (hfresh : KeepsFresh tablePrefix call world visited)
    (h : Recorded (nocodb faults).contract (requestEdits tablePrefix) (call.program tablePrefix)
      world visited completed result world') :
    ∀ middle ∈ visited, WellKept unicode tablePrefix middle := by
  intro middle hmiddle
  obtain ⟨outcome, final, hexec, htables, hrows⟩ := exec_of_stops (h.stops hmiddle)
  have hsame : ∀ table,
      systemRows tablePrefix final table = systemRows tablePrefix middle table := by
    intro table
    simp only [systemRows, htables, hrows]
  have hfinal : call.createsUser = true → FreshUsers tablePrefix world final := by
    intro hcreates
    have hmiddleFresh := hfresh hcreates middle hmiddle
    unfold FreshUsers at hmiddleFresh ⊢
    rwa [hsame]
  obtain ⟨script, -, done, rest, -, -, hdone⟩ :=
    Call.follows hkept haccepted (performs_of_program hexec) hfinal
  exact (Simulates.of_systemRows_eq hdone.kept htables.symm fun table => (hsame table).symm).kept

/-- The log of a call is what the call does to the policy. -/
theorem simulates_recorded {call : Call} (hkept : WellKept unicode tablePrefix world)
    (haccepted : call.Accepted unicode) (hfresh : KeepsFresh tablePrefix call world visited)
    (h : Recorded (nocodb faults).contract (requestEdits tablePrefix) (call.program tablePrefix)
      world visited completed result world') :
    Simulates unicode tablePrefix world completed world' :=
  h.chain (fun world hworld => .unchanged hworld (Unchanged.refl world))
    (fun hfirst hsecond => hfirst.trans hsecond)
    (fun _ _ _ _ hstep hworld hworld' => simulates_step hstep hworld hworld') hkept
    (wellKept_visited hkept haccepted hfresh h)

end

end Runs
end NocoMiddleware
