import NocoMiddleware.Concurrency.Threads
import NocoMiddleware.Runs.KeyUniqueness

/-!
# Interleaved writes of one permission row

`setTablePermissions` looks the row of a role and a table up and then overwrites or
creates it.  Interleaved calls keep at most one such row as long as each create
request finds none, and then one more call makes the rights exactly its flags.  Two
calls that both look up before either creates leave two rows, of which later calls
overwrite one.
-/

namespace NocoMiddleware
namespace Concurrency

open NocoMiddleware.Js NocoMiddleware.Filter NocoMiddleware.Tables NocoMiddleware.Store
open NocoMiddleware.Permissions NocoMiddleware.Runs NocoMiddleware.Foundation

/-- The dto that writes the flags for a role and a table. -/
def flagsDto (roleId : JsNumber) (table : JsString) (flags : PermissionFlags) :
    SetTablePermissionsDto :=
  { flags with roleId := roleId, tableName := .string table }

/-- The row is a permission row of the role and the table. -/
def IsPermission (roleId : JsNumber) (table : JsString) (row : Row) : Prop :=
  permissionKey row = some (roleId, table)

instance (roleId : JsNumber) (table : JsString) (row : Row) :
    Decidable (IsPermission roleId table row) :=
  inferInstanceAs (Decidable (_ = _))

/-- A create request finds no permission row of the role and the table. -/
def Unpermitted {ι α : Type} (tablePrefix : JsString) (roleId : JsNumber) (table : JsString)
    (config : ServiceConfig ι α) (_ : ι) (op : Op) : Prop :=
  op.createsIn.isSome = true →
    ∀ row ∈ systemRows tablePrefix config.world .tablePermissions,
      ¬ IsPermission roleId table row

instance {ι α : Type} (tablePrefix : JsString) (roleId : JsNumber) (table : JsString)
    (config : ServiceConfig ι α) (thread : ι) (op : Op) :
    Decidable (Unpermitted tablePrefix roleId table config thread op) :=
  inferInstanceAs (Decidable (_ → _))

section

variable {ι : Type} (tablePrefix : JsString) (tables : List TableMeta) (roleId : JsNumber)
variable (table : JsString)

/-- A listing that looks the permission row of the role and the table up. -/
def IsLookup (op : Op) : Prop :=
  ∃ found filter, resolve tablePrefix tables SystemTable.tablePermissions.name = some found ∧
    filterBoth (js "role_id") (.number roleId) (js "table_name") (.string table) = .ok filter ∧
    op = .list found.id filter 1

/-- The thread has looked the record up. -/
def HasFound (events : List (ServiceEvent ι)) (record : NocoRecord) : Prop :=
  ∃ thread tableId filter limit records, IsLookup tablePrefix tables roleId table
      (.list tableId filter limit) ∧
    (⟨thread, .list tableId filter limit, .ok records⟩ : ServiceEvent ι) ∈ events ∧
      record ∈ records

/-- The only writes create a permission row of the role and the table, or overwrite a
record that the thread has looked up. -/
def OnlySets (events : List (ServiceEvent ι)) (op : Op) : Prop :=
  op.isWrite = true →
    ∃ found flags, resolve tablePrefix tables SystemTable.tablePermissions.name = some found ∧
      (∃ x, roleId = .finite x) ∧
      (op = .create found.id (permissionData (flagsDto roleId table flags)) ∨
        ∃ record recordId, HasFound tablePrefix tables roleId table events record ∧
          extractNumericId record = .ok recordId ∧
          op = .update found.id recordId (permissionData (flagsDto roleId table flags)))

/-- At most one permission row of the role and the table, and every record that was
looked up is still one. -/
structure Settled (history : List (ServiceEvent ι)) (world : World) : Prop where
  sameTables : world.tables = tables
  one : AtMostOne (IsPermission roleId table) (systemRows tablePrefix world .tablePermissions)
  found : ∀ record, HasFound tablePrefix tables roleId table history record →
    ∃ row ∈ systemRows tablePrefix world .tablePermissions,
      extractNumericId record = .ok (.ofNat row.id) ∧ IsPermission roleId table row

end

section

variable {ι : Type} {faults : Bool} {unicode : UnicodeClasses} {tablePrefix : JsString}
variable {tables : List TableMeta} {roleId : JsNumber} {table : JsString}

/-! ## One call -/

theorem wp_setTablePermissions_recorded {thread : ι} {flags : PermissionFlags}
    {events : List (ServiceEvent ι)} :
    wp (recorded thread (OnlySets tablePrefix tables roleId table) (SeesTables tables))
      (setTablePermissions tablePrefix (flagsDto roleId table flags)) (fun _ _ => True)
      events := by
  have hfail : ∀ (exception : Exception) (events : List (ServiceEvent ι)), True :=
    fun _ _ => trivial
  refine wp_next_getTableByName (by nofun) hfail fun found hfound => ?_
  obtain rfl : found = tables := hfound
  cases hresolve : resolve tablePrefix found SystemTable.tablePermissions.name with
  | none => trivial
  | some permissionsTable =>
      refine wp_next_ofExcept hfail fun filter hfilter => ?_
      have hfinite : ∃ x, roleId = .finite x := by
        obtain ⟨left, hleft, -⟩ := bind_eq_ok.mp hfilter
        exact finite_of_filterEq hleft
      refine wp_next_findOne (by nofun) hfail fun records _ => ?_
      cases hrecord : records.head? with
      | none =>
          refine wp_next (fun _ => ?_) hfail fun result _ => ?_
          · exact ⟨permissionsTable, flags, hresolve, hfinite, Or.inl rfl⟩
          · exact wp_next (by nofun) hfail fun _ _ => trivial
      | some existing =>
          refine wp_next_ofExcept hfail fun recordId hrecordId => ?_
          refine wp_next (fun _ => ?_) hfail fun result _ => ?_
          · refine ⟨permissionsTable, flags, hresolve, hfinite,
              Or.inr ⟨existing, recordId, ⟨thread, permissionsTable.id, filter, 1, records,
                ⟨permissionsTable, filter, hresolve, hfilter, rfl⟩, ?_,
                List.mem_of_mem_head? hrecord⟩, hrecordId, rfl⟩⟩
            simp
          · exact wp_next (by nofun) hfail fun _ _ => trivial

/-! ## What a write keeps -/

theorem isPermission_of_written {flags : PermissionFlags} {row : Row}
    {rest : List (JsString × JsonScalar)} (hfinite : ∃ x, roleId = .finite x)
    (hcells : row.cells = toCells (permissionData (flagsDto roleId table flags)) ++ rest) :
    IsPermission roleId table row := by
  refine (permissionKey_eq_some_iff _ _ _).mpr ⟨?_, ?_⟩
  · exact cell_role_id_of_written hfinite hcells
  · exact cell_table_name_of_written rfl hfinite hcells

theorem matches_iff_isPermission (hvalid : isValidTableName unicode table = true) (row : Row) :
    Matches roleId (.string table) row ↔ IsPermission roleId table row :=
  (matches_string hvalid).trans (permissionKey_eq_some_iff _ _ _).symm

/-- A write of the row of the role and the table keeps at most one. -/
theorem atMostOne_of_upserted (hvalid : isValidTableName unicode table = true)
    {flags : PermissionFlags} {world world' : World}
    (hone : AtMostOne (IsPermission roleId table)
      (systemRows tablePrefix world .tablePermissions))
    (h : Upserted tablePrefix (flagsDto roleId table flags) world world') :
    AtMostOne (IsPermission roleId table) (systemRows tablePrefix world' .tablePermissions) := by
  obtain ⟨-, ⟨row, hmatches, hchanged⟩ | ⟨habsent, row, -, hchanged⟩⟩ := h
  · obtain ⟨before, after, hbefore, hafter, hrow, rfl⟩ := hchanged.applies
    rw [hbefore] at hone
    rw [hafter]
    refine hone.replace hrow (fun _ => ?_) fun other => Table.replaced_of_mem_update hrow
    exact (matches_iff_isPermission hvalid row).mp hmatches
  · obtain ⟨before, after, hbefore, hafter, hfresh, rfl⟩ := hchanged.applies
    rw [hbefore] at hone habsent
    rw [hafter, Table.rows_insert]
    refine hone.append_singleton fun _ other hother hpermission => ?_
    exact habsent other hother ((matches_iff_isPermission hvalid other).mpr hpermission)

/-- A write of the row of the role and the table keeps the ids of such rows. -/
theorem exists_of_upserted {flags : PermissionFlags} {world world' : World}
    (h : Upserted tablePrefix (flagsDto roleId table flags) world world') {old : Row}
    (hold : old ∈ systemRows tablePrefix world .tablePermissions)
    (hpermission : IsPermission roleId table old) :
    ∃ row ∈ systemRows tablePrefix world' .tablePermissions,
      row.id = old.id ∧ IsPermission roleId table row := by
  obtain ⟨hfinite, ⟨row, -, hchanged⟩ | ⟨-, row, -, hchanged⟩⟩ := h
  · obtain ⟨before, after, hbefore, hafter, hrow, rfl⟩ := hchanged.applies
    rw [hbefore] at hold
    rw [hafter]
    by_cases hid : row.id = old.id
    · refine ⟨old.patch _, List.mem_map.mpr ⟨old, hold, if_pos (by rw [hid])⟩, rfl, ?_⟩
      exact isPermission_of_written hfinite rfl
    · refine ⟨old, List.mem_map.mpr ⟨old, hold, if_neg ?_⟩, rfl, hpermission⟩
      exact fun h => hid (JsNumber.ofNat_inj.mp h)
  · exact ⟨old, hchanged.mem_of_insert hold, rfl, hpermission⟩

/-! ## Steps of the threads -/

/-- A write of a thread leaves everything as it is, or writes the row of the role and
the table. -/
theorem upserted_of_onlySets (hvalid : isValidTableName unicode table = true)
    {history events : List (ServiceEvent ι)} {op : Op} {world world' : World}
    {result : Except Exception (Res op)}
    (hsettled : Settled tablePrefix tables roleId table history world)
    (hevents : ∀ event ∈ events, event ∈ history)
    (hop : OnlySets tablePrefix tables roleId table events op) (hwrite : op.isWrite = true)
    (habsent : op.createsIn.isSome = true →
      ∀ row ∈ systemRows tablePrefix world .tablePermissions, ¬ IsPermission roleId table row)
    (hstep : (nocodb faults).contract.step op world result world') :
    Unchanged world world' ∨
      ∃ flags, Upserted tablePrefix (flagsDto roleId table flags) world world' := by
  obtain ⟨found, flags, hresolve, hfinite, rfl | ⟨record, recordId, hfound, hid, rfl⟩⟩ :=
    hop hwrite
  -- a create request inserts the row, as there is none of the role and the table
  · rw [← hsettled.sameTables] at hresolve
    have hcreate : wp (nocodb faults).contract
        (create found.id (permissionData (flagsDto roleId table flags)))
        (fun _ later => Unchanged world later ∨
          ∃ flags, Upserted tablePrefix (flagsDto roleId table flags) world later) world := by
      refine wp_create_changed (Unchanged.refl world) hresolve (fun _ _ h => Or.inl h) ?_
      intro row later hcells hchanged
      refine Or.inr ⟨flags, hfinite, Or.inr ⟨fun other hother hmatches => ?_, row, hcells,
        hchanged⟩⟩
      exact habsent rfl other hother ((matches_iff_isPermission hvalid other).mp hmatches)
    exact hcreate.2 _ _ hstep
  · -- the record that was looked up is still the row of the role and the table
    have hhistory : HasFound tablePrefix tables roleId table history record := by
      obtain ⟨thread, tableId, filter, limit, records, hlookup, hevent, hrecord⟩ := hfound
      exact ⟨thread, tableId, filter, limit, records, hlookup, hevents _ hevent, hrecord⟩
    obtain ⟨row, hrow, hrowId, hpermission⟩ := hsettled.found record hhistory
    obtain rfl : JsNumber.ofNat row.id = recordId := Except.ok.inj (hrowId.symm.trans hid)
    rw [← hsettled.sameTables] at hresolve
    rw [systemRows_eq hresolve] at hrow
    have hupdate : wp (nocodb faults).contract
        (update found.id (.ofNat row.id) (permissionData (flagsDto roleId table flags)))
        (fun _ later => Unchanged world later ∨
          ∃ flags, Upserted tablePrefix (flagsDto roleId table flags) world later) world := by
      refine wp_update_changed (Unchanged.refl world) hresolve hrow (fun _ _ h => Or.inl h) ?_
      intro later hchanged
      refine Or.inr ⟨flags, hfinite, Or.inl ⟨row, ?_, hchanged⟩⟩
      exact (matches_iff_isPermission hvalid row).mpr hpermission
    exact hupdate.2 _ _ hstep

/-- What a lookup answers is the row of the role and the table. -/
theorem found_of_lookup (hvalid : isValidTableName unicode table = true) {tableId filter : JsString}
    {limit : Nat} {records : List NocoRecord} {world world' : World}
    (hlookup : IsLookup tablePrefix world.tables roleId table (.list tableId filter limit))
    (hstep : (nocodb faults).contract.step (.list tableId filter limit) world (.ok records) world')
    {record : NocoRecord} (hrecord : record ∈ records) :
    ∃ row ∈ systemRows tablePrefix world .tablePermissions,
      extractNumericId record = .ok (.ofNat row.id) ∧ IsPermission roleId table row := by
  obtain ⟨found, lookup, hresolve, hfilter, heq⟩ := hlookup
  obtain ⟨rfl, rfl, rfl⟩ := Op.list.inj heq
  obtain ⟨rows, hselect, rfl⟩ := records_of_list hstep
  rw [selectRows_filterBoth hfilter] at hselect
  obtain rfl := Option.some.inj hselect
  obtain ⟨row, hrow, rfl⟩ := List.mem_map.mp hrecord
  obtain ⟨hmem, hsatisfies⟩ := List.mem_filter.mp (List.mem_of_mem_take hrow)
  rw [systemRows_eq hresolve]
  refine ⟨row, hmem, extractNumericId_flattenRecord _ _, ?_⟩
  exact (matches_iff_isPermission hvalid row).mp ((satisfies_matches _ _ _).mp hsatisfies)

/-- The steps of the threads keep at most one row, and the records that were looked
up. -/
theorem Settled.of_step (hvalid : isValidTableName unicode table = true)
    {history events : List (ServiceEvent ι)} {thread : ι} {op : Op} {world world' : World}
    {result : Except Exception (Res op)}
    (hsettled : Settled tablePrefix tables roleId table history world)
    (hevents : ∀ event ∈ events, event ∈ history)
    (hop : OnlySets tablePrefix tables roleId table events op)
    (habsent : op.createsIn.isSome = true →
      ∀ row ∈ systemRows tablePrefix world .tablePermissions, ¬ IsPermission roleId table row)
    (hstep : (nocodb faults).contract.step op world result world') :
    Settled tablePrefix tables roleId table (history ++ [⟨thread, op, result⟩]) world' := by
  have hchange : systemRows tablePrefix world' .tablePermissions =
        systemRows tablePrefix world .tablePermissions ∨
      ∃ flags, Upserted tablePrefix (flagsDto roleId table flags) world world' := by
    cases hwrite : op.isWrite with
    | false => exact Or.inl (systemRows_of_step hstep hwrite)
    | true =>
        rcases upserted_of_onlySets hvalid hsettled hevents hop hwrite habsent hstep with
          hunchanged | hupserted
        · exact Or.inl (hunchanged.systemRows_eq _ _)
        · exact Or.inr hupserted
  have hkept : ∀ old ∈ systemRows tablePrefix world .tablePermissions,
      IsPermission roleId table old → ∃ row ∈ systemRows tablePrefix world' .tablePermissions,
        row.id = old.id ∧ IsPermission roleId table row := by
    intro old hold hpermission
    rcases hchange with hsame | ⟨flags, hupserted⟩
    · exact ⟨old, by rwa [hsame], rfl, hpermission⟩
    · exact exists_of_upserted hupserted hold hpermission
  refine ⟨(tables_of_step hstep).trans hsettled.sameTables, ?_, ?_⟩
  · rcases hchange with hsame | ⟨flags, hupserted⟩
    · rw [hsame]
      exact hsettled.one
    · exact atMostOne_of_upserted hvalid hsettled.one hupserted
  · rintro record ⟨other, tableId, filter, limit, records, hlookup, hevent, hrecord⟩
    -- a record was found before or by this step, in a row that the step keeps
    have hfound : ∃ old ∈ systemRows tablePrefix world .tablePermissions,
        extractNumericId record = .ok (.ofNat old.id) ∧ IsPermission roleId table old := by
      rcases List.mem_append.mp hevent with hevent | hevent
      · exact hsettled.found record
          ⟨other, tableId, filter, limit, records, hlookup, hevent, hrecord⟩
      · cases List.mem_singleton.mp hevent
        rw [← hsettled.sameTables] at hlookup
        exact found_of_lookup hvalid hlookup hstep hrecord
    obtain ⟨old, hold, hid, hpermission⟩ := hfound
    obtain ⟨row, hrow, hrowId, hrowPermission⟩ := hkept old hold hpermission
    exact ⟨row, hrow, by rw [hrowId, hid], hrowPermission⟩

/-! ## Runs -/

variable [DecidableEq ι]

/-- Interleaved writes for a role and a table keep at most one row of them as long as
each create request finds none. -/
theorem settled_of_interleaved (hvalid : isValidTableName unicode table = true)
    {flags : ι → PermissionFlags} {first : World}
    (hfirst : AtMostOne (IsPermission roleId table)
      (systemRows tablePrefix first .tablePermissions))
    {config : ServiceConfig ι NocoRecord}
    (hrun : Interleaved (nocodb faults).contract (Unpermitted tablePrefix roleId table)
      (Config.start (fun thread =>
        setTablePermissions tablePrefix (flagsDto roleId table (flags thread))) first) config) :
    Settled tablePrefix first.tables roleId table config.history config.world := by
  have hpreserves : Preserves (Step (nocodb faults).contract
      (Unpermitted tablePrefix roleId table))
      (Outlined (Settled tablePrefix first.tables roleId table)
        (fun (_ : ι) => OnlySets tablePrefix first.tables roleId table)
        (SeesTables first.tables) (fun _ (_ : Except Exception NocoRecord) _ => True)) := by
    refine preserves_outlined fun config thread op answer world hsettled hpermits hguard hstep => ?_
    refine ⟨?_, hsettled.of_step hvalid ?_ hpermits hguard hstep⟩
    · rw [← hsettled.sameTables]
      exact seesTables_of_step hstep
    · exact fun event hevent => (List.mem_filter.mp hevent).1
  refine (hpreserves.reflTransGen _ _ hrun ⟨⟨rfl, hfirst, ?_⟩, fun thread => ?_⟩).shared
  · rintro record ⟨_, _, _, _, _, _, hevent, _⟩
    contradiction
  · exact wp_setTablePermissions_recorded

/-- After interleaved writes for a role and a table whose create requests each find no
row of them, one more successful `setTablePermissions` makes the rights of the role on
the table exactly its flags. -/
theorem setTablePermissions_decides (unicode : UnicodeClasses) (tablePrefix : JsString)
    (roleId : JsNumber) {table : JsString} (hvalid : isValidTableName unicode table = true)
    {flags : ι → PermissionFlags} {first : World}
    (hfirst : AtMostOne (IsPermission roleId table)
      (systemRows tablePrefix first .tablePermissions))
    {config : ServiceConfig ι NocoRecord}
    (hrun : Interleaved (nocodb true).contract (Unpermitted tablePrefix roleId table)
      (Config.start (fun thread =>
        setTablePermissions tablePrefix (flagsDto roleId table (flags thread))) first) config)
    (last : PermissionFlags) {world : World}
    (hset : (Call.setTablePermissions (flagsDto roleId table last)).Performs tablePrefix true
      config.world true world) (action : CrudAction) :
    RoleAllows tablePrefix world roleId table action ↔ last.allows action = true := by
  have heffect : PermissionsSet tablePrefix (flagsDto roleId table last) config.world world :=
    Call.effect_of_performs hset
  obtain ⟨middle, hupserted, hcleared⟩ := id heffect
  have hsettled := settled_of_interleaved hvalid hfirst hrun
  have hone := atMostOne_of_upserted hvalid hsettled.one hupserted
  rw [← hcleared.systemRows_eq tablePrefix] at hone
  have hname : (flagsDto roleId table last).tableName = .string table := rfl
  exact roleAllows_of_permissionsSet hname hone heffect action

end

/-- Only the right to read. -/
def readOnly : PermissionFlags :=
  ⟨false, true, false, false⟩

/-- No right at all. -/
def noRights : PermissionFlags :=
  ⟨false, false, false, false⟩

/-- Two calls that let role 3 read the table `invoices`. -/
def twoWrites : ServiceConfig (Fin 2) NocoRecord :=
  .start (fun _ => setTablePermissions [] (flagsDto (.ofNat 3) (js "invoices") readOnly))
    readerWorld

theorem setTablePermissions_decides_invoices :
    ∃ (config : ServiceConfig (Fin 2) NocoRecord) (world : World),
      Interleaved (nocodb true).contract (Unpermitted [] (.ofNat 3) (js "invoices")) twoWrites
          config ∧
        (∀ thread, (config.outcome thread).isSome = true) ∧
        (Call.setTablePermissions (flagsDto (.ofNat 3) (js "invoices") noRights)).Performs [] true
          config.world true world ∧
        ∀ action, RoleAllows [] world (.ofNat 3) (js "invoices") action ↔
          noRights.allows action = true := by
  obtain ⟨config, hrun, hcheck⟩ := System.exists_interleaved
    (by decide +kernel : ((nocodb true).schedule (Unpermitted [] (.ofNat 3) (js "invoices"))
      (List.replicate 4 (0, promptly 9) ++ List.replicate 4 (1, promptly 10)) twoWrites).any
      (fun config => decide (∀ thread, (config.outcome thread).isSome = true) &&
        succeedsWith true
          (setTablePermissions [] (flagsDto (.ofNat 3) (js "invoices") noRights)) (prompt 4)
          (fun _ => true) config.world) = true)
  rw [Bool.and_eq_true, decide_eq_true_eq] at hcheck
  obtain ⟨world, hset, -⟩ := completes_of_succeedsWith hcheck.2
  refine ⟨config, world, hrun, hcheck.1, hset, ?_⟩
  have hvalid : isValidTableName .ascii (js "invoices") = true := by decide
  have hfirst : AtMostOne (IsPermission (.ofNat 3) (js "invoices"))
      (systemRows [] readerWorld .tablePermissions) := AtMostOne.singleton _
  exact setTablePermissions_decides .ascii [] (.ofNat 3) hvalid hfirst hrun noRights hset

/-- Two calls that look the row up before either creates it leave two rows, and a later
call that takes every right away leaves the right to read. -/
theorem right_survives_revocation :
    ∃ (config : ServiceConfig (Fin 2) NocoRecord) (world : World),
      Interleaved (nocodb true).contract AnyOrder twoWrites config ∧
        (∀ thread, (config.outcome thread).isSome = true) ∧
        (Call.setTablePermissions (flagsDto (.ofNat 3) (js "invoices") noRights)).Performs [] true
          config.world true world ∧
        noRights.allows .read = false ∧
        RoleAllows [] world (.ofNat 3) (js "invoices") .read := by
  obtain ⟨config, hrun, hcheck⟩ := System.exists_interleaved
    (by decide +kernel : ((nocodb true).schedule AnyOrder
      (List.replicate 4 [(0, promptly 9), (1, promptly 10)]).flatten twoWrites).any
      (fun config => decide (∀ thread, (config.outcome thread).isSome = true) &&
        succeedsWith true
          (setTablePermissions [] (flagsDto (.ofNat 3) (js "invoices") noRights)) (prompt 4)
          (fun world => decide (RoleAllows [] world (.ofNat 3) (js "invoices") .read))
          config.world) = true)
  rw [Bool.and_eq_true, decide_eq_true_eq] at hcheck
  obtain ⟨world, hset, hallows⟩ := completes_of_succeedsWith hcheck.2
  exact ⟨config, world, hrun, hcheck.1, hset, rfl, of_decide_eq_true hallows⟩

end Concurrency
end NocoMiddleware
