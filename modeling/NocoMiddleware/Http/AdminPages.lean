import NocoMiddleware.Http.PermissionsGuard
import NocoMiddleware.Users.UserRolePages

/-!
# What an administrator sees

`getAllRoles` of `roles.service.ts` and `getRolePermissions` of
`permissions-management.service.ts`: sorted pages of a system table.  Together with the pages of
the roles of a user they show what permission checks answer.
-/

namespace NocoMiddleware
namespace Http

open NocoMiddleware.Js NocoMiddleware.Filter NocoMiddleware.Tables NocoMiddleware.Store
open NocoMiddleware.Permissions NocoMiddleware.Users NocoMiddleware.Foundation NocoMiddleware.Runs

/-! ## The methods -/

section

variable (tablePrefix : JsString)

/-- A page of a system table: the records that a filter selects, in the order of a sort. -/
def listPage (table : SystemTable) (filter : Except Exception (Option JsString)) (sort : JsString)
    (pageOptionsDto : Option PageOptionsDto) : Paging (PageDto NocoRecord) := do
  let found ← (getTableByName tablePrefix table.name).lift
  match found with
  | none => return ⟨[], PageMetaDto.of (pageOptionsDto.getD .initial) 0⟩
  | some found =>
      let limit := (pageOptionsDto.bind PageOptionsDto.take).getD 10
      let offset := (pageOptionsDto.map PageOptionsDto.skip).getD 0
      let filter ← Program.ofExcept filter
      let response ← listWith found.id
        { filter := filter
          sort := some sort
          fields := none
          limit := some limit
          offset := some offset
          withCount := true }
      let data := response.list
      let totalRows := (response.pageInfo.map NocoPageInfo.totalRows).getD data.length
      let itemCount := if pageOptionsDto.isSome then totalRows else data.length
      return ⟨data, PageMetaDto.of (pageOptionsDto.getD .initial) itemCount⟩

/-- `getAllRoles`. -/
def getAllRoles (pageOptionsDto : Option PageOptionsDto) : Paging (PageDto NocoRecord) :=
  listPage tablePrefix .roles (.ok none) (js "id") pageOptionsDto

/-- `getRolePermissions`. -/
def getRolePermissions (roleId : JsNumber) (pageOptionsDto : Option PageOptionsDto) :
    Paging (PageDto NocoRecord) :=
  listPage tablePrefix .tablePermissions
    ((filterEq (js "role_id") (.number roleId)).map some) (js "table_name") pageOptionsDto

end

/-! ## One page -/

/-- The rows that a listing shows, in its order. -/
def listedRows (order : SortOrder) (tablePrefix : JsString) (world : World) (table : SystemTable)
    (q : Row → Bool) (sort : JsString) : List Row :=
  order.sortRows (toV3Sort sort) ((systemRows tablePrefix world table).filter q)

section

variable {order : SortOrder} {tablePrefix : JsString} {world world' : World}
  {table : SystemTable} {q : Row → Bool} {sort : JsString}

theorem listedRows_congr (htables : world'.tables = world.tables)
    (hrows : world'.rows = world.rows) :
    listedRows order tablePrefix world' table q sort =
      listedRows order tablePrefix world table q sort := by
  unfold listedRows systemRows
  rw [htables, hrows]

theorem mem_listedRows {row : Row} :
    row ∈ listedRows order tablePrefix world table q sort ↔
      row ∈ systemRows tablePrefix world table ∧ q row = true := by
  rw [listedRows, (order.perm _ _).mem_iff, List.mem_filter]

/-- Where no request fails, a listing answers with the page of the rows that its filter
selects. -/
theorem wp_listPage {filter : Option JsString} {take page : Nat} (hsort : sort ≠ [])
    (hselect : ∀ tableId, matchingRows world tableId (filter.filter fun filter => filter ≠ []) =
      some ((world.rows tableId).rows.filter q)) :
    wp (pagedNocodb order false).contract
      (listPage tablePrefix table (.ok filter) sort (some ⟨some page, some take⟩))
      (fun result world' => Unchanged world world' ∧
        result = .ok (pageOf ((listedRows order tablePrefix world table q sort).map
          (flattenRecord none)) take page)) world := by
  rw [listPage, wp_bind]
  apply wp_lift_paged
  apply wp_getTableByName nofun
  intro world₁ h₁
  rw [onOk_ok]
  cases htable : resolve tablePrefix world.tables table.name with
  | none =>
      -- a table that does not resolve has no rows
      have hempty : listedRows order tablePrefix world table q sort = [] := by
        rw [listedRows, ← List.length_eq_zero_iff, length_sortRows]
        simp only [systemRows, htable]
        rfl
      refine ⟨h₁, ?_⟩
      rw [hempty, pageOf, List.map_nil, slice_eq_nil (Nat.zero_le _)]
      rfl
  | some found =>
      have hsorted : ((some sort).filter fun sort => sort ≠ []).map toV3Sort =
          some (toV3Sort sort) := by
        rw [Option.filter_some, if_pos (by simpa using hsort), Option.map_some]
      show wp _ (listWith _ _ >>= _) _ world₁
      rw [wp_bind]
      have hmatching := (matchingRows_of_unchanged h₁ found.id
        (filter.filter fun filter => filter ≠ [])).trans (hselect found.id)
      apply wp_listWith rfl hmatching
      intro world₂ h₂
      refine ⟨h₁.trans h₂, ?_⟩
      have hrows : order.sortRows
          ((listQuery found.id ⟨filter, some sort, none, some take,
            some (PageOptionsDto.skip ⟨some page, some take⟩), true⟩).sort.getD [])
          ((world.rows found.id).rows.filter q) =
          listedRows order tablePrefix world table q sort := by
        rw [listedRows, systemRows_eq htable]
        show order.sortRows ((((some sort).filter fun sort => sort ≠ []).map toV3Sort).getD []) _ = _
        rw [hsorted]
        rfl
      have hlength : ((world.rows found.id).rows.filter q).length =
          ((listedRows order tablePrefix world table q sort).map (flattenRecord none)).length := by
        rw [List.length_map, ← hrows, length_sortRows]
      rw [pageOf, ← map_slice, ← hlength, ← hrows]
      rfl

/-! ## All pages of a table -/

/-- All roles, in the order of their ids. -/
def rolesInOrder (order : SortOrder) (tablePrefix : JsString) (world : World) : List Row :=
  listedRows order tablePrefix world .roles (fun _ => true) (js "id")

/-- The permission rows of a role, in the order of their table names. -/
def permissionsInOrder (order : SortOrder) (tablePrefix : JsString) (world : World)
    (roleId : JsNumber) : List Row :=
  listedRows order tablePrefix world .tablePermissions
    (fun row => row.cell (js "role_id") = .number roleId) (js "table_name")

theorem wp_getAllRoles {take page : Nat} :
    wp (pagedNocodb order false).contract (getAllRoles tablePrefix (some ⟨some page, some take⟩))
      (fun result world' => Unchanged world world' ∧
        result = .ok (pageOf ((rolesInOrder order tablePrefix world).map (flattenRecord none))
          take page)) world := by
  apply wp_listPage (by decide)
  intro tableId
  rw [List.filter_true]
  rfl

theorem wp_getRolePermissions (roleId : Nat) {take page : Nat} :
    wp (pagedNocodb order false).contract
      (getRolePermissions tablePrefix (.ofNat roleId) (some ⟨some page, some take⟩))
      (fun result world' => Unchanged world world' ∧
        result = .ok (pageOf ((permissionsInOrder order tablePrefix world (.ofNat roleId)).map
          (flattenRecord none)) take page)) world := by
  obtain ⟨filter, hfilter⟩ := filterEq_finite
    (by decide : filterFieldPattern.test (js "role_id") = true) (.ofNat roleId)
  have hroleId : filterEq (js "role_id") (.number (.ofNat roleId)) = .ok filter := hfilter
  rw [getRolePermissions, hroleId]
  apply wp_listPage (by decide)
  intro tableId
  rw [filter_ne_nil (ne_nil_of_filterEq hroleId)]
  exact selectRows_filterEq hroleId (by decide) _

/-- The roles come in ascending order of their ids, and no two of them have one id. -/
theorem rolesInOrder_ascending :
    (rolesInOrder order tablePrefix world).Pairwise fun first second => first.id < second.id := by
  have hsort : toV3Sort (js "id") = [⟨primaryKeyField, false⟩] := by decide
  have hperm := order.perm (toV3Sort (js "id"))
    ((systemRows tablePrefix world .roles).filter fun _ => true)
  have hdistinct : (rolesInOrder order tablePrefix world).Nodup := by
    apply hperm.nodup_iff.mpr
    exact (nodup_systemRows tablePrefix world .roles).filter _
  have hascending := order.ascending primaryKeyField
    ((systemRows tablePrefix world .roles).filter fun _ => true)
  rw [← hsort] at hascending
  apply (hascending.and hdistinct).imp_of_mem
  rintro first second hfirst hsecond ⟨hle, hne⟩
  apply Nat.lt_of_le_of_ne
  · exact hle first.id second.id (if_pos rfl) (if_pos rfl)
  · intro hid
    apply hne
    exact eq_of_mem_systemRows (mem_listedRows.mp hfirst).1 (mem_listedRows.mp hsecond).1 hid

/-- The pages of the roles and of the permissions of every role tile what the tables hold: the
roles in ascending order of their ids, and exactly the permission rows of the role. -/
structure AdminPages (tablePrefix : JsString) (world : World) (take : Nat) (roles : List Row)
    (permissions : Nat → List Row) : Prop where
  allRoles : roles.Perm (systemRows tablePrefix world .roles)
  ascending : roles.Pairwise fun first second => first.id < second.id
  rolePages : PagesTile (roles.map (flattenRecord none)) take
  ofRole : ∀ roleId, (permissions roleId).Perm
    ((systemRows tablePrefix world .tablePermissions).filter
      fun row => row.cell (js "role_id") = .number (.ofNat roleId))
  permissionPages : ∀ roleId, PagesTile ((permissions roleId).map (flattenRecord none)) take

theorem adminPages_inOrder {take : Nat} (htake : 0 < take) :
    AdminPages tablePrefix world take (rolesInOrder order tablePrefix world) fun roleId =>
      permissionsInOrder order tablePrefix world (.ofNat roleId) where
  allRoles := by
    rw [rolesInOrder, listedRows, List.filter_true]
    exact order.perm _ _
  ascending := rolesInOrder_ascending
  rolePages := pages_tile _ htake
  ofRole := fun _ => order.perm _ _
  permissionPages := fun _ => pages_tile _ htake

/-- On a store that does not change and where no request fails, the listings of the
administration always answer, with the pages of all roles and of all permissions of a role. -/
theorem admin_listings_complete (order : SortOrder) (tablePrefix : JsString) (world : World)
    {take : Nat} (htake : 0 < take) :
    ∃ roles permissions, AdminPages tablePrefix world take roles permissions ∧
      ∀ world' final, world'.tables = world.tables → world'.rows = world.rows →
        (∀ page result, Exec (pagedNocodb order false).contract
            (getAllRoles tablePrefix (some ⟨some page, some take⟩)) world' result final →
          result = .ok (pageOf (roles.map (flattenRecord none)) take page)) ∧
        ∀ roleId page result, Exec (pagedNocodb order false).contract
            (getRolePermissions tablePrefix (.ofNat roleId) (some ⟨some page, some take⟩)) world'
              result final →
          result = .ok (pageOf ((permissions roleId).map (flattenRecord none)) take page) := by
  have hpages : AdminPages tablePrefix world take (rolesInOrder order tablePrefix world)
      fun roleId => permissionsInOrder order tablePrefix world (.ofNat roleId) :=
    adminPages_inOrder htake
  refine ⟨_, _, hpages, ?_⟩
  intro world' final htables hrows
  constructor
  · intro page result hexec
    have hresult := (wp_sound wp_getAllRoles hexec).2
    rwa [rolesInOrder, listedRows_congr htables hrows] at hresult
  · intro roleId page result hexec
    have hresult := (wp_sound (wp_getRolePermissions roleId) hexec).2
    rwa [permissionsInOrder, listedRows_congr htables hrows] at hresult

theorem admin_listings_complete_reader :
    ∃ roles permissions, AdminPages [] readerWorld 10 roles permissions ∧
      ∀ world' final, world'.tables = readerWorld.tables → world'.rows = readerWorld.rows →
        (∀ page result, Exec (pagedNocodb numericOrder false).contract
            (getAllRoles [] (some ⟨some page, some 10⟩)) world' result final →
          result = .ok (pageOf (roles.map (flattenRecord none)) 10 page)) ∧
        ∀ roleId page result, Exec (pagedNocodb numericOrder false).contract
            (getRolePermissions [] (.ofNat roleId) (some ⟨some page, some 10⟩)) world'
              result final →
          result = .ok (pageOf ((permissions roleId).map (flattenRecord none)) 10 page) :=
  admin_listings_complete numericOrder [] readerWorld (by decide)

/-! ## The pages and the checks -/

theorem allPages_pageOf {items : List NocoRecord} {take : Nat} (htake : 0 < take)
    {pages : Nat → PageDto NocoRecord} (hpages : ∀ page, 0 < page → pages page =
      pageOf items take page) : allPages pages = items := by
  rw [allPages, hpages 1 Nat.one_pos, pageCount_pageOf htake]
  refine Eq.trans ?_ (concatenate_pageOf htake)
  rw [List.range'_eq_map_range, List.flatMap_map]
  apply List.flatMap_congr
  intro index _
  rw [hpages (index + 1) (Nat.succ_pos index), Nat.add_comm]

/-- Some page shows a role of the user, and some page of this role a permission for the action on
the table. -/
def Shown (userPages : Nat → PageDto NocoRecord) (permissionPages : Nat → Nat → PageDto NocoRecord)
    (table : JsString) (action : CrudAction) : Prop :=
  ∃ roleId, (∃ role ∈ allPages userPages, role.id = .number (.ofNat roleId)) ∧
    ∃ permission ∈ allPages (permissionPages roleId),
      permission.get (js "table_name") = .string table ∧ table ≠ [] ∧
        (permission.get action.flag).truthy = true

/-- The pages of the roles of a user and of the permissions of these roles. -/
structure ShowPages (order : SortOrder) (tablePrefix : JsString) (world : World) (userId : Nat)
    (take : Nat) (userPages : Nat → PageDto NocoRecord)
    (permissionPages : Nat → Nat → PageDto NocoRecord) : Prop where
  users : ∀ page, 0 < page → ∃ world' final, world'.tables = world.tables ∧
    world'.rows = world.rows ∧ Exec (pagedNocodb order false).contract
      (getUserRoles tablePrefix (.ofNat userId) (some ⟨some page, some take⟩)) world'
      (.ok (userPages page)) final
  permissions : ∀ roleId page, 0 < page → ∃ world' final, world'.tables = world.tables ∧
    world'.rows = world.rows ∧ Exec (pagedNocodb order false).contract
      (getRolePermissions tablePrefix (.ofNat roleId) (some ⟨some page, some take⟩)) world'
      (.ok (permissionPages roleId page)) final

theorem allPages_users {userId take : Nat} (htake : 0 < take)
    {userPages : Nat → PageDto NocoRecord} {permissionPages : Nat → Nat → PageDto NocoRecord}
    (h : ShowPages order tablePrefix world userId take userPages permissionPages) :
    allPages userPages =
      (assignedRoles order tablePrefix world (.ofNat userId)).map (flattenRecord none) := by
  have hpages : ∀ page, 0 < page →
      userPages page = userRolesPage order tablePrefix world (.ofNat userId) take page := by
    intro page hpage
    obtain ⟨world', final, htables, hrows, hexec⟩ := h.users page hpage
    rw [← userRolesPage_congr htables hrows]
    have hwp : wp (pagedNocodb order false).contract
        (getUserRoles tablePrefix (.ofNat userId) (some ⟨some page, some take⟩))
        (fun result _ =>
          result = .ok (userRolesPage order tablePrefix world' (.ofNat userId) take page))
        world' := wp_getUserRoles hpage htake
    have hresult := wp_sound hwp hexec
    exact Except.ok.inj hresult
  rw [← allPages_userRolesPage htake, allPages, allPages, hpages 1 Nat.one_pos]
  apply List.flatMap_congr
  intro index _
  rw [hpages (index + 1) (Nat.succ_pos index)]

theorem allPages_permissions {userId take : Nat} (htake : 0 < take)
    {userPages : Nat → PageDto NocoRecord} {permissionPages : Nat → Nat → PageDto NocoRecord}
    (h : ShowPages order tablePrefix world userId take userPages permissionPages) (roleId : Nat) :
    allPages (permissionPages roleId) =
      (permissionsInOrder order tablePrefix world (.ofNat roleId)).map (flattenRecord none) := by
  apply allPages_pageOf htake
  intro page hpage
  obtain ⟨world', final, htables, hrows, hexec⟩ := h.permissions roleId page hpage
  have hresult := (wp_sound (wp_getRolePermissions roleId) hexec).2
  rw [permissionsInOrder, listedRows_congr htables hrows] at hresult
  exact Except.ok.inj hresult

/-- The pages show exactly the grants of the system tables. -/
theorem shown_iff_grants {userId take : Nat} (htake : 0 < take)
    (htables : ∀ system : SystemTable, (resolve tablePrefix world.tables system.name).isSome = true)
    {userPages : Nat → PageDto NocoRecord} {permissionPages : Nat → Nat → PageDto NocoRecord}
    (h : ShowPages order tablePrefix world userId take userPages permissionPages)
    (table : JsString) (action : CrudAction) :
    Shown userPages permissionPages table action ↔
      Grants tablePrefix world (.ofNat userId) table action := by
  have hflag : ∀ row : Row, (flattenRecord none row).get action.flag = row.cell action.flag := by
    intro row
    cases action
    all_goals exact get_flattenRecord (by decide) (by decide)
  have hname : ∀ row : Row,
      (flattenRecord none row).get (js "table_name") = row.cell (js "table_name") :=
    fun row => get_flattenRecord (by decide) (by decide)
  rw [Shown, allPages_users htake h]
  simp only [allPages_permissions htake h, List.mem_map, exists_exists_and_eq_and, hname, hflag]
  constructor
  · rintro ⟨roleId, ⟨role, hrole, hid⟩, permission, hpermission, htable, hne, htruthy⟩
    obtain ⟨hexists, assignment, hassignment, hassigns⟩ := mem_assignedRoles.mp hrole
    obtain ⟨hmem, hofRole⟩ := mem_listedRows.mp hpermission
    -- the id that the record shows is the key of the role
    obtain rfl : role.id = roleId := by
      have hkey : JsValue.number (.ofNat role.id) = .number (.ofNat roleId) := hid
      exact JsNumber.ofNat_inj.mp (JsValue.number.inj hkey)
    exact ⟨htables, role.id, ⟨role.positive, ⟨assignment, hassignment, hassigns⟩, role, hexists,
      rfl⟩, permission, hmem, of_decide_eq_true hofRole, htable, hne, htruthy⟩
  · rintro ⟨-, roleId, ⟨-, hassigned, role, hrole, rfl⟩, permission, hmem, hofRole, htable, hne,
      htruthy⟩
    refine ⟨role.id, ⟨role, mem_assignedRoles.mpr ⟨hrole, hassigned⟩, rfl⟩, permission, ?_,
      htable, hne, htruthy⟩
    exact mem_listedRows.mpr ⟨hmem, decide_eq_true hofRole⟩

/-- A permission check answers true exactly if the administrator sees a role of the user with a
permission for the action, on the pages of a store that does not change. -/
theorem checks_agree_with_pages (order : SortOrder) (tablePrefix : JsString) {world : World}
    (hinvariant : CacheInvariant tablePrefix world)
    (htables : ∀ system : SystemTable, (resolve tablePrefix world.tables system.name).isSome = true)
    {userId take : Nat} (htake : 0 < take) {userPages : Nat → PageDto NocoRecord}
    {permissionPages : Nat → Nat → PageDto NocoRecord}
    (hpages : ShowPages order tablePrefix world userId take userPages permissionPages)
    {table : JsString} {action : CrudAction} {result : Except Exception Bool} {final : World}
    (hexec : Exec (nocodb false).contract
      (canUserPerformAction tablePrefix (.ofNat userId) table action) world result final) :
    result = .ok true ↔ Shown userPages permissionPages table action := by
  rw [shown_iff_grants htake htables hpages]
  have hanswer := (wp_sound (wp_canUserPerformAction_coherent hinvariant) hexec).2
  cases result with
  | ok granted =>
      rw [Except.ok.injEq]
      exact hanswer
  | error exception =>
      rcases hanswer with hfaults | ⟨hfinite, -⟩
      · contradiction
      · exact absurd rfl (hfinite (.ofNat userId))

end

/-! ## The pages of a reader -/

/-- NocoDB has an answer to every request of a listing. -/
theorem pagedNocodb_total (order : SortOrder) (op : Op ⊕ PageOp) (world : World) :
    ∃ result world', (pagedNocodb order false).contract.step op world result world' := by
  cases op with
  | inl op => exact nocodb_total false op world
  | inr op => exact ⟨_, _, ⟨false, 0, [], 0⟩, rfl, rfl⟩

/-- The pages of the roles of a user, and of the permissions of every role. -/
theorem exists_showPages (order : SortOrder) (tablePrefix : JsString) (world : World) (userId : Nat)
    {take : Nat} (htake : 0 < take) :
    ∃ userPages permissionPages,
      ShowPages order tablePrefix world userId take userPages permissionPages := by
  refine ⟨userRolesPage order tablePrefix world (.ofNat userId) take, fun roleId page =>
    pageOf ((permissionsInOrder order tablePrefix world (.ofNat roleId)).map (flattenRecord none))
      take page, ?_, ?_⟩
  · intro page hpage
    obtain ⟨result, final, hexec⟩ := exists_exec (pagedNocodb_total order)
      (getUserRoles tablePrefix (.ofNat userId) (some ⟨some page, some take⟩)) world
    have hwp : wp (pagedNocodb order false).contract
        (getUserRoles tablePrefix (.ofNat userId) (some ⟨some page, some take⟩))
        (fun result _ =>
          result = .ok (userRolesPage order tablePrefix world (.ofNat userId) take page))
        world := wp_getUserRoles hpage htake
    have hresult := wp_sound hwp hexec
    exact ⟨world, final, rfl, rfl, hresult ▸ hexec⟩
  · intro roleId page _
    obtain ⟨result, final, hexec⟩ := exists_exec (pagedNocodb_total order)
      (getRolePermissions tablePrefix (.ofNat roleId) (some ⟨some page, some take⟩)) world
    have hresult := (wp_sound (wp_getRolePermissions roleId) hexec).2
    exact ⟨world, final, rfl, rfl, hresult ▸ hexec⟩

theorem checks_agree_with_pages_reader :
    ∃ userPages permissionPages result final,
      Exec (nocodb false).contract (canUserPerformAction [] (.ofNat 7) (js "orders") .read)
        readerWorld result final ∧
      (result = .ok true ↔ Shown userPages permissionPages (js "orders") .read) := by
  obtain ⟨userPages, permissionPages, hpages⟩ :=
    exists_showPages numericOrder [] readerWorld 7 (by decide : 0 < 10)
  obtain ⟨result, final, hexec⟩ := exists_exec (nocodb_total false)
    (canUserPerformAction [] (.ofNat 7) (js "orders") .read) readerWorld
  have htables : ∀ system : SystemTable,
      (resolve [] readerWorld.tables system.name).isSome = true := by
    intro system
    cases system <;> decide
  exact ⟨userPages, permissionPages, result, final, hexec, checks_agree_with_pages numericOrder []
    ⟨coherent_of_empty rfl, distinctTables_systemTables []⟩ htables (by decide) hpages hexec⟩

end Http
end NocoMiddleware
