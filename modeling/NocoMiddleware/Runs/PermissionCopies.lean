import NocoMiddleware.Runs.PermissionFolds

/-!
# Copies of permissions

A successful `copyPermissions` is a fold over the rows of the source role.  It gives the
target role a row with the same flags for every table of the source role, so that a user of
the target role may do there what a user of the source role may do, and a second copy
changes nothing.
-/

namespace NocoMiddleware
namespace Runs

open NocoMiddleware.Js NocoMiddleware.Filter NocoMiddleware.Tables NocoMiddleware.Store
open NocoMiddleware.Permissions NocoMiddleware.Users NocoMiddleware.Auth
open NocoMiddleware.Foundation

/-- The table names of the permission rows are as `TABLE_NAME_PATTERN` wants them. -/
def NamesValid (unicode : UnicodeClasses) (rows : List Row) : Prop :=
  ∀ row ∈ rows, ∃ name, row.cell (js "table_name") = .string name ∧
    isValidTableName unicode name = true

/-- The user has this one role and no other. -/
def HoldsOnly (tablePrefix : JsString) (world : World) (userId : JsNumber) (roleId : Nat) :
    Prop :=
  ∀ other, HoldsRole tablePrefix world userId other ↔ other = roleId

/-- For every permission row of the source role, the target role has a row for the same table
with the same flags; all other rows of the store stay. -/
structure Copied (tablePrefix : JsString) (source target : Nat) (world world' : World) : Prop where
  tables : world'.tables = world.tables
  elsewhere : ∀ tableId, ¬ IsPermissionsTable tablePrefix world tableId →
    world'.rows tableId = world.rows tableId
  copies : ∀ row ∈ rolePermissions tablePrefix world (.ofNat source), ∀ name,
    row.cell (js "table_name") = .string name →
    ∃ copy ∈ systemRows tablePrefix world' .tablePermissions,
      permissionKey copy = some (.ofNat target, name) ∧
      ∀ action : CrudAction, copy.cell action.flag = .boolean (row.cell action.flag).truthy
  others : ∀ row, (∀ name, permissionKey row = some (.ofNat target, name) →
      ∀ sourceRow ∈ rolePermissions tablePrefix world (.ofNat source),
        sourceRow.cell (js "table_name") ≠ .string name) →
    (row ∈ systemRows tablePrefix world' .tablePermissions ↔
      row ∈ systemRows tablePrefix world .tablePermissions)
  fields : ∀ row ∈ systemRows tablePrefix world .tablePermissions,
    ∃ row' ∈ systemRows tablePrefix world' .tablePermissions, row'.id = row.id ∧
      ∀ title, title ∉ permissionFields → row'.cell title = row.cell title
  unique : UniqueKeys permissionKey (systemRows tablePrefix world' .tablePermissions)

/-- The system tables grant the same actions on a table to two users, and permission checks
answer alike for them. -/
def SameRights (tablePrefix : JsString) (world : World) (userId otherId : JsNumber)
    (table : JsString) : Prop :=
  ∀ action, (Grants tablePrefix world userId table action ↔
      Grants tablePrefix world otherId table action) ∧
    ∀ result final other last,
      Exec (nocodb false).contract (canUserPerformAction tablePrefix userId table action) world
        result final →
      Exec (nocodb false).contract (canUserPerformAction tablePrefix otherId table action) world
        other last →
      (result = .ok true ↔ other = .ok true)

section

variable {unicode : UnicodeClasses} {tablePrefix : JsString} {faults : Bool}
  {world world' : World} {source target : Nat} {row : Row} {name : JsString}

/-! ## The dtos of a copy -/

theorem allows_copyDto (row : Row) (action : CrudAction) :
    (copyDto (.ofNat target) (flattenRecord none row)).allows action =
      (row.cell action.flag).truthy := by
  have hget : (flattenRecord none row).get action.flag = row.cell action.flag := by
    cases action
    all_goals exact get_flattenRecord (by decide) (by decide)
  rw [← hget]
  cases action
  all_goals rfl

theorem tableName_copyDto (row : Row) :
    (copyDto (.ofNat target) (flattenRecord none row)).tableName = row.cell (js "table_name") := by
  show (flattenRecord none row).get (js "table_name") = _
  exact get_flattenRecord (by decide) (by decide)

theorem namesTable_copyDto (hname : row.cell (js "table_name") = .string name)
    (hvalid : isValidTableName unicode name = true) :
    NamesTable unicode (.ofNat target) (copyDto (.ofNat target) (flattenRecord none row)) name :=
  ⟨rfl, ⟨_, rfl⟩, (tableName_copyDto row).trans hname, hvalid⟩

theorem mem_rolePermissions :
    row ∈ rolePermissions tablePrefix world (.ofNat source) ↔
      row ∈ systemRows tablePrefix world .tablePermissions ∧
        row.cell (js "role_id") = .number (.ofNat source) := by
  rw [rolePermissions, List.mem_filter, decide_eq_true_iff]

/-- The last dto for a table of the source role is the copy of its row there. -/
theorem lastDto_copyDtos (target : Nat)
    (hunique : UniqueKeys permissionKey (systemRows tablePrefix world .tablePermissions))
    (hrow : row ∈ rolePermissions tablePrefix world (.ofNat source))
    (hname : row.cell (js "table_name") = .string name) :
    lastDto (copyDtos tablePrefix world (.ofNat source) (.ofNat target)) name =
      some (copyDto (.ofNat target) (flattenRecord none row)) := by
  have hdto : copyDto (.ofNat target) (flattenRecord none row) ∈
      copyDtos tablePrefix world (.ofNat source) (.ofNat target) := List.mem_map_of_mem hrow
  obtain ⟨last, hlast⟩ := lastDto_of_mem hdto ((tableName_copyDto row).trans hname)
  obtain ⟨hmem, hlastName⟩ := of_lastDto hlast
  obtain ⟨other, hother, rfl⟩ := List.mem_map.mp hmem
  have hotherName := (tableName_copyDto other).symm.trans hlastName
  obtain ⟨hrowMem, hrowRole⟩ := mem_rolePermissions.mp hrow
  obtain ⟨hotherMem, hotherRole⟩ := mem_rolePermissions.mp hother
  have hkey := (permissionKey_eq_some_iff row _ _).mpr ⟨hrowRole, hname⟩
  have hotherKey := (permissionKey_eq_some_iff other _ _).mpr ⟨hotherRole, hotherName⟩
  obtain rfl := hunique _ other hotherMem row hrowMem hotherKey hkey
  exact hlast

/-- There is a last dto only for the tables of the source role. -/
theorem of_lastDto_copyDtos {dto : SetTablePermissionsDto}
    (h : lastDto (copyDtos tablePrefix world (.ofNat source) (.ofNat target)) name = some dto) :
    ∃ row ∈ rolePermissions tablePrefix world (.ofNat source),
      row.cell (js "table_name") = .string name ∧
        dto = copyDto (.ofNat target) (flattenRecord none row) := by
  obtain ⟨hmem, hname⟩ := of_lastDto h
  obtain ⟨row, hrow, rfl⟩ := List.mem_map.mp hmem
  exact ⟨row, hrow, (tableName_copyDto row).symm.trans hname, rfl⟩

/-! ## The first copy -/

/-- A copy that succeeds has written the copies of all source rows. -/
theorem wp_copyPermissions_folds
    (hunique : UniqueKeys permissionKey (systemRows tablePrefix world .tablePermissions))
    (hnames : NamesValid unicode (systemRows tablePrefix world .tablePermissions)) :
    wp (nocodb faults).contract (copyPermissions tablePrefix (.ofNat source) (.ofNat target))
      (fun result world' => ∀ answer, result = .ok answer →
        answer.copiedCount = (rolePermissions tablePrefix world (.ofNat source)).length ∧
        DtosWritten tablePrefix (.ofNat target)
          (copyDtos tablePrefix world (.ofNat source) (.ofNat target)) world world') world := by
  refine wp_copyPermissions_loop
    (fun copied => DtosWritten tablePrefix (.ofNat target)
      (copied.map fun row => copyDto (.ofNat target) (flattenRecord none row)) world) ?_ ?_ ?_ ?_ ?_
  · intro exception w h answer hanswer
    contradiction
  · exact fun w h => .refl hunique h
  · intro copied row remaining middle w hsplit h hset
    have hrow : row ∈ rolePermissions tablePrefix world (.ofNat source) := by
      rw [hsplit]
      exact List.mem_append_right _ List.mem_cons_self
    obtain ⟨name, hname, hvalid⟩ := hnames row (mem_rolePermissions.mp hrow).1
    rw [List.map_append]
    exact h.concat (namesTable_copyDto hname hvalid).addresses hset
  · intro copied exception middle w _ _ answer hanswer
    contradiction
  · intro w h answer hanswer
    obtain rfl := Except.ok.inj hanswer
    exact ⟨rfl, h⟩

theorem copied_of_dtosWritten
    (hunique : UniqueKeys permissionKey (systemRows tablePrefix world .tablePermissions))
    (h : DtosWritten tablePrefix (.ofNat target)
      (copyDtos tablePrefix world (.ofNat source) (.ofNat target)) world world') :
    Copied tablePrefix source target world world' where
  tables := h.tables
  elsewhere := h.elsewhere
  copies row hrow name hname := by
    have hlast := lastDto_copyDtos target hunique hrow hname
    obtain ⟨copy, hcopy, hkey⟩ := h.rows.present name _ hlast
    refine ⟨copy, hcopy, hkey, fun action => ?_⟩
    rw [h.rows.flags copy hcopy name _ hkey hlast action, allows_copyDto]
  others row huntouched := by
    apply h.rows.others row
    intro name hkey
    cases hlast : lastDto (copyDtos tablePrefix world (.ofNat source) (.ofNat target)) name with
    | none => rfl
    | some dto =>
        obtain ⟨sourceRow, hsource, hname, -⟩ := of_lastDto_copyDtos hlast
        exact absurd hname (huntouched name hkey sourceRow hsource)
  fields := h.rows.fields
  unique := h.rows.unique

/-! ## The rights of the roles -/

/-- What a user of one role is granted on a table, where the role has one row for it. -/
theorem grants_iff_of_holdsOnly {userId : JsNumber} {roleId : Nat} {action : CrudAction}
    (hunique : UniqueKeys permissionKey (systemRows tablePrefix world .tablePermissions))
    (hholds : HoldsOnly tablePrefix world userId roleId)
    (hrow : row ∈ systemRows tablePrefix world .tablePermissions)
    (hkey : permissionKey row = some (.ofNat roleId, name)) :
    Grants tablePrefix world userId name action ↔
      (∀ system : SystemTable, (resolve tablePrefix world.tables system.name).isSome = true) ∧
        name ≠ [] ∧ (row.cell action.flag).truthy = true := by
  obtain ⟨hrole, hname⟩ := (permissionKey_eq_some_iff row _ _).mp hkey
  unfold Grants
  apply and_congr_right
  intro _
  constructor
  · rintro ⟨other, hother, granting, hgranting, hgrantRole, hgrantName, hne, hflag⟩
    obtain rfl := (hholds other).mp hother
    have hgrantKey := (permissionKey_eq_some_iff granting _ _).mpr ⟨hgrantRole, hgrantName⟩
    rw [hunique _ row hrow granting hgranting hkey hgrantKey]
    exact ⟨hne, hflag⟩
  · rintro ⟨hne, hflag⟩
    exact ⟨roleId, (hholds roleId).mpr rfl, row, hrow, hrole, hname, hne, hflag⟩

/-- After a copy, the rows of the source role are there with the truth values of their
flags. -/
theorem Copied.source_row
    (h : Copied tablePrefix source target world world')
    (hrow : row ∈ rolePermissions tablePrefix world (.ofNat source))
    (hname : row.cell (js "table_name") = .string name) :
    ∃ row' ∈ systemRows tablePrefix world' .tablePermissions,
      permissionKey row' = some (.ofNat source, name) ∧
      ∀ action : CrudAction, (row'.cell action.flag).truthy = (row.cell action.flag).truthy := by
  obtain ⟨hmem, hrole⟩ := mem_rolePermissions.mp hrow
  have hkey := (permissionKey_eq_some_iff row _ _).mpr ⟨hrole, hname⟩
  by_cases hself : source = target
  · obtain ⟨copy, hcopy, hcopyKey, hflags⟩ := h.copies row hrow name hname
    rw [← hself] at hcopyKey
    refine ⟨copy, hcopy, hcopyKey, fun action => ?_⟩
    rw [hflags action]
    rfl
  · -- the row is of another role than the target, so it has not been touched
    refine ⟨row, (h.others row ?_).mpr hmem, hkey, fun _ => rfl⟩
    intro other hother
    rw [hkey] at hother
    have hroles := congrArg Prod.fst (Option.some.inj hother)
    exact absurd (JsNumber.ofNat_inj.mp hroles) hself

theorem Copied.sameRights (h : Copied tablePrefix source target world world')
    (hcache : world'.cache = .empty)
    (hrow : row ∈ rolePermissions tablePrefix world (.ofNat source))
    (hname : row.cell (js "table_name") = .string name) {sourceUser targetUser : JsNumber}
    (hsource : HoldsOnly tablePrefix world' sourceUser source)
    (htarget : HoldsOnly tablePrefix world' targetUser target) :
    SameRights tablePrefix world' sourceUser targetUser name := by
  obtain ⟨copy, hcopy, hcopyKey, hflags⟩ := h.copies row hrow name hname
  obtain ⟨row', hrow', hkey', hflags'⟩ := h.source_row hrow hname
  have hgrants : ∀ action, Grants tablePrefix world' sourceUser name action ↔
      Grants tablePrefix world' targetUser name action := by
    intro action
    rw [grants_iff_of_holdsOnly h.unique hsource hrow' hkey',
      grants_iff_of_holdsOnly h.unique htarget hcopy hcopyKey, hflags, hflags']
    rfl
  intro action
  refine ⟨hgrants action, ?_⟩
  intro result final other last hexec hexec'
  rw [wp_sound (wp_canUserPerformAction hcache) hexec,
    wp_sound (wp_canUserPerformAction hcache) hexec']
  exact hgrants action

/-! ## The second copy -/

theorem permissionKey_of_sameRow {row' : Row} (h : SameRow row row') :
    permissionKey row' = permissionKey row := by
  unfold permissionKey
  rw [h.cell, h.cell]

/-- Writing a dto over a row that carries it changes nothing. -/
theorem Addresses.sameRow {roleId : JsNumber} {dto : SetTablePermissionsDto}
    (h : Addresses roleId dto name) (hkey : permissionKey row = some (roleId, name))
    (hflags : ∀ action : CrudAction, row.cell action.flag = .boolean (dto.allows action)) :
    SameRow row (row.patch (permissionData dto)) := by
  have hcells : (row.patch (permissionData dto)).cells =
      toCells (permissionData dto) ++ row.cells := rfl
  obtain ⟨hrole, htable⟩ := (permissionKey_eq_some_iff row _ _).mp hkey
  obtain ⟨hrole', htable'⟩ :=
    (permissionKey_eq_some_iff _ _ _).mp (h.permissionKey_of_written hcells)
  have hflag : ∀ action : CrudAction,
      (row.patch (permissionData dto)).cell action.flag = row.cell action.flag := by
    intro action
    rw [h.flags_of_written hcells, hflags]
  refine ⟨rfl, fun title => ?_⟩
  by_cases htitle : title ∈ permissionFields
  · simp only [permissionFields, List.mem_cons, List.not_mem_nil, or_false] at htitle
    rcases htitle with rfl | rfl | rfl | rfl | rfl | rfl
    · rw [hrole', hrole]
    · rw [htable', htable]
    · exact hflag .create
    · exact hflag .read
    · exact hflag .update
    · exact hflag .delete
  · exact cell_patch_permissionData dto row htitle

/-- The dtos of a second copy are carried by the rows of the target role. -/
theorem carried_of_dtosWritten
    (hunique : UniqueKeys permissionKey (systemRows tablePrefix world .tablePermissions))
    (hnames : NamesValid unicode (systemRows tablePrefix world .tablePermissions))
    (h : DtosWritten tablePrefix (.ofNat target)
      (copyDtos tablePrefix world (.ofNat source) (.ofNat target)) world world')
    (hrow : row ∈ rolePermissions tablePrefix world' (.ofNat source)) :
    ∃ name, NamesTable unicode (.ofNat target) (copyDto (.ofNat target) (flattenRecord none row))
        name ∧
      ∃ copy ∈ systemRows tablePrefix world' .tablePermissions,
        permissionKey copy = some (.ofNat target, name) ∧
        ∀ action : CrudAction, copy.cell action.flag =
          .boolean ((copyDto (.ofNat target) (flattenRecord none row)).allows action) := by
  obtain ⟨hmem, hrole⟩ := mem_rolePermissions.mp hrow
  by_cases htouched : ∃ name dto, permissionKey row = some (.ofNat target, name) ∧
      lastDto (copyDtos tablePrefix world (.ofNat source) (.ofNat target)) name = some dto
  · -- the row has been written itself, so its flags are truth values
    obtain ⟨name, dto, hkey, hlast⟩ := htouched
    obtain ⟨sourceRow, hsource, hsourceName, -⟩ := of_lastDto_copyDtos hlast
    obtain ⟨stored, hstored, hvalid⟩ := hnames sourceRow (mem_rolePermissions.mp hsource).1
    obtain rfl : name = stored := JsValue.string.inj (hsourceName.symm.trans hstored)
    have hname := ((permissionKey_eq_some_iff row _ _).mp hkey).2
    refine ⟨name, namesTable_copyDto hname hvalid, row, hmem, hkey, fun action => ?_⟩
    rw [allows_copyDto, h.rows.flags row hmem name dto hkey hlast action]
    rfl
  · have hold : row ∈ systemRows tablePrefix world .tablePermissions := by
      apply (h.rows.others row ?_).mp hmem
      intro name hkey
      cases hlast : lastDto (copyDtos tablePrefix world (.ofNat source) (.ofNat target)) name with
      | none => rfl
      | some dto => exact absurd ⟨name, dto, hkey, hlast⟩ htouched
    -- the row was there before, so a dto was made of it
    obtain ⟨name, hname, hvalid⟩ := hnames row hold
    have hlast := lastDto_copyDtos target hunique
      (mem_rolePermissions.mpr ⟨hold, hrole⟩) hname
    obtain ⟨copy, hcopy, hkey⟩ := h.rows.present name _ hlast
    exact ⟨name, namesTable_copyDto hname hvalid, copy, hcopy, hkey,
      h.rows.flags copy hcopy name _ hkey hlast⟩

/-- Setting permissions that a row carries changes nothing. -/
theorem sameRows_of_permissionsSet {roleId : JsNumber} {dto : SetTablePermissionsDto}
    {first middle last : World} (hname : Addresses roleId dto name)
    (hunique : UniqueKeys permissionKey (systemRows tablePrefix first .tablePermissions))
    (hrow : row ∈ systemRows tablePrefix first .tablePermissions)
    (hkey : permissionKey row = some (roleId, name))
    (hflags : ∀ action : CrudAction, row.cell action.flag = .boolean (dto.allows action))
    (hsame : SameRows (systemRows tablePrefix first .tablePermissions)
      (systemRows tablePrefix middle .tablePermissions))
    (h : PermissionsSet tablePrefix dto middle last) (tableId : JsString) :
    SameRows (middle.rows tableId).rows (last.rows tableId).rows := by
  obtain ⟨written, ⟨-, hwritten⟩, hcleared⟩ := h
  rw [hcleared.rows]
  rcases hwritten with ⟨found, hmatches, hchanged⟩ | ⟨habsent, -⟩
  · -- the row that is found is the one that carries the dto
    obtain ⟨old, hold, hsameRow⟩ := hsame.of_mem hchanged.mem_of_patch
    have hfoundKey := hname.matches_iff.mp hmatches
    have holdKey := (permissionKey_of_sameRow hsameRow).symm.trans hfoundKey
    obtain rfl := hunique _ old hold row hrow holdKey hkey
    apply hchanged.sameRows
    apply hname.sameRow hfoundKey
    intro action
    rw [hsameRow.cell, hflags]
  · obtain ⟨copy, hcopy, hsameRow⟩ := hsame.mem hrow
    have hcopyKey := (permissionKey_of_sameRow hsameRow).trans hkey
    exact absurd (hname.matches_iff.mpr hcopyKey) (habsent copy hcopy)

/-- Two worlds with the same tables hold rows that cannot be told apart. -/
structure SameStore (world world' : World) : Prop where
  tables : world'.tables = world.tables
  rows : ∀ tableId, SameRows (world.rows tableId).rows (world'.rows tableId).rows

theorem SameStore.systemRows (h : SameStore world world') (table : SystemTable) :
    SameRows (systemRows tablePrefix world table) (systemRows tablePrefix world' table) := by
  unfold Store.systemRows
  rw [h.tables]
  split
  · exact SameRows.refl _
  · exact h.rows _

theorem wp_copyPermissions_again
    (hunique : UniqueKeys permissionKey (systemRows tablePrefix world .tablePermissions))
    (hnames : NamesValid unicode (systemRows tablePrefix world .tablePermissions))
    (h : DtosWritten tablePrefix (.ofNat target)
      (copyDtos tablePrefix world (.ofNat source) (.ofNat target)) world world') :
    wp (nocodb faults).contract (copyPermissions tablePrefix (.ofNat source) (.ofNat target))
      (fun _ final => SameStore world' final) world' := by
  have hunchanged : ∀ middle last, SameStore world' middle → Unchanged middle last →
      SameStore world' last := by
    intro middle last hsame hmiddle
    refine ⟨by rw [hmiddle.tables, hsame.tables], fun tableId => ?_⟩
    rw [hmiddle.rows]
    exact hsame.rows tableId
  have hrefl : SameStore world' world' := ⟨rfl, fun _ => SameRows.refl _⟩
  refine wp_copyPermissions_loop (fun _ => SameStore world')
    (fun _ last => hunchanged world' last hrefl) (fun last => hunchanged world' last hrefl) ?_
    (fun _ _ middle last => hunchanged middle last) (fun _ hsame => hsame)
  intro copied row remaining middle last hsplit hsame hset
  have hrow : row ∈ rolePermissions tablePrefix world' (.ofNat source) := by
    rw [hsplit]
    exact List.mem_append_right _ List.mem_cons_self
  obtain ⟨name, hname, copy, hcopy, hkey, hflags⟩ := carried_of_dtosWritten hunique hnames h hrow
  constructor
  · exact hset.tables.trans hsame.tables
  · intro tableId
    exact (hsame.rows tableId).trans (sameRows_of_permissionsSet hname.addresses h.rows.unique
      hcopy hkey hflags (hsame.systemRows _) hset tableId)

end

/-- Copying the permissions of a role overrides exactly the rows of the target role for the
tables of the source role and gives users of both roles the same rights there; copying again
changes nothing. -/
theorem copy_overrides (unicode : UnicodeClasses) (tablePrefix : JsString) {faults : Bool}
    {source target : Nat} {world world' : World} {answer : CopyResult}
    (hunique : UniqueKeys permissionKey (systemRows tablePrefix world .tablePermissions))
    (hnames : NamesValid unicode (systemRows tablePrefix world .tablePermissions))
    (hexec : Exec (nocodb faults).contract
      (copyPermissions tablePrefix (.ofNat source) (.ofNat target)) world (.ok answer) world') :
    answer.copiedCount = (rolePermissions tablePrefix world (.ofNat source)).length ∧
      Copied tablePrefix source target world world' ∧
      (∀ row ∈ rolePermissions tablePrefix world (.ofNat source), ∀ name,
        row.cell (js "table_name") = .string name → ∀ sourceUser targetUser,
        HoldsOnly tablePrefix world' sourceUser source →
        HoldsOnly tablePrefix world' targetUser target →
        SameRights tablePrefix world' sourceUser targetUser name) ∧
      ∀ faults' again final, Exec (nocodb faults').contract
        (copyPermissions tablePrefix (.ofNat source) (.ofNat target)) world' again final →
        SameStore world' final := by
  obtain ⟨hcount, hwritten⟩ :=
    wp_sound (wp_copyPermissions_folds hunique hnames) hexec answer rfl
  have hcopied := copied_of_dtosWritten hunique hwritten
  refine ⟨hcount, hcopied, ?_, ?_⟩
  · intro row hrow name hname sourceUser targetUser hsource htarget
    have hcache : world'.cache = .empty := by
      apply hwritten.cache
      exact List.ne_nil_of_mem (List.mem_map_of_mem hrow)
    exact hcopied.sameRights hcache hrow hname hsource htarget
  · intro faults' again final hagain
    exact wp_sound (wp_copyPermissions_again hunique hnames hwritten) hagain

/-- The store of `readerWorld` with a user 8 of a role 4 without permissions. -/
def guestWorld : World :=
  .holding []
    [(js "user_roles", .ofRows
        [.ofCells 1 [(js "user_id", .number (.ofNat 7)), (js "role_id", .number (.ofNat 3))],
          .ofCells 2 [(js "user_id", .number (.ofNat 8)), (js "role_id", .number (.ofNat 4))]]),
      (js "roles", .ofRows [.ofCells 3 [], .ofCells 4 []]),
      (js "table_permissions", .ofRows
        [.ofCells 1 [(js "role_id", .number (.ofNat 3)),
          (js "table_name", .string (js "orders")), (js "can_read", .boolean true)]])]

/-- The world after the permissions of role 3 were copied to role 4. -/
def guestCopied : World :=
  settle true (copyPermissions [] (.ofNat 3) (.ofNat 4)) (prompt 6) guestWorld

/-- A user all of whose assignments are of one existing role holds only this role. -/
theorem holdsOnly_of_assignments {tablePrefix : JsString} {world : World} {userId : JsNumber}
    {roleId : Nat} (hpositive : 0 < roleId)
    (hassigned : ∃ row ∈ systemRows tablePrefix world .userRoles,
      row.cell (js "user_id") = .number userId ∧
        (row.cell (js "role_id")).toNumber = .ofNat roleId)
    (honly : ∀ row ∈ systemRows tablePrefix world .userRoles,
      row.cell (js "user_id") = .number userId →
        (row.cell (js "role_id")).toNumber = .ofNat roleId)
    (hexists : ∃ row ∈ systemRows tablePrefix world .roles, row.id = roleId) :
    HoldsOnly tablePrefix world userId roleId := by
  intro other
  constructor
  · rintro ⟨-, ⟨row, hrow, huser, hrole⟩, -⟩
    rw [honly row hrow huser] at hrole
    exact (JsNumber.ofNat_inj.mp hrole).symm
  · rintro rfl
    exact ⟨hpositive, hassigned, hexists⟩

theorem holdsOnly_guestCopied :
    HoldsOnly [] guestCopied (.ofNat 7) 3 ∧ HoldsOnly [] guestCopied (.ofNat 8) 4 := by
  constructor
  · exact holdsOnly_of_assignments (by decide) (by decide +kernel) (by decide +kernel)
      (by decide +kernel)
  · exact holdsOnly_of_assignments (by decide) (by decide +kernel) (by decide +kernel)
      (by decide +kernel)

theorem copy_overrides_guest :
    ∃ answer, Exec (nocodb true).contract (copyPermissions [] (.ofNat 3) (.ofNat 4)) guestWorld
        (.ok answer) guestCopied ∧
      answer.copiedCount = 1 ∧ Copied [] 3 4 guestWorld guestCopied ∧
      SameRights [] guestCopied (.ofNat 7) (.ofNat 8) (js "orders") := by
  have hcompletes : Completes true (copyPermissions [] (.ofNat 3) (.ofNat 4)) guestWorld true
      guestCopied := completes_of_run (by decide +kernel)
  obtain ⟨result, hexec, hok⟩ := hcompletes
  cases result with
  | error exception => cases hok
  | ok answer =>
      have hunique : UniqueKeys permissionKey (systemRows [] guestWorld .tablePermissions) :=
        UniqueKeys.singleton _
      have hnames : NamesValid .ascii (systemRows [] guestWorld .tablePermissions) := by
        intro row hrow
        obtain rfl := List.eq_of_mem_singleton hrow
        exact ⟨js "orders", by decide, by decide⟩
      obtain ⟨hcount, hcopied, hrights, -⟩ := copy_overrides .ascii [] hunique hnames hexec
      refine ⟨answer, hexec, hcount, hcopied, ?_⟩
      exact hrights _ List.mem_cons_self (js "orders") (by decide) _ _ holdsOnly_guestCopied.1
        holdsOnly_guestCopied.2

end Runs
end NocoMiddleware
