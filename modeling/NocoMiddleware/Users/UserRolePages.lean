import NocoMiddleware.Permissions.Grants
import NocoMiddleware.Store.PageDto
import NocoMiddleware.Store.PagedListing
import NocoMiddleware.Users.UserRolesService

/-!
# The roles of a user, page by page

`getUserRoles` and `loadRoles` of `user-roles.service.ts`.  A page is cut from the assignments
of the user, and shows the roles that they name; assignments of deleted roles are counted and
paged like the others, but show nothing.
-/

namespace NocoMiddleware
namespace Users

open NocoMiddleware.Js NocoMiddleware.Filter NocoMiddleware.Tables NocoMiddleware.Store
open NocoMiddleware.Permissions NocoMiddleware.Foundation

/-! ## The methods -/

/-- `new Map(roles.map((role) => [Number(role.id), role]))`. -/
def recordsById (roles : List NocoRecord) : OrderedMap JsNumber NocoRecord :=
  roles.foldl (fun byId role => byId.set role.id.toNumber role) .empty

/-- The positive integers among the role ids of a page of assignments. -/
def pageRoleIds (assignments : List NocoRecord) : List JsNumber :=
  (assignments.map fun ur => (ur.get (js "role_id")).toNumber).filter fun id =>
    id.isInteger && id.isPositive

section

variable (tablePrefix : JsString)

/-- `loadRoles`. -/
def loadRoles (roleIds : List JsNumber) : Service (List NocoRecord) :=
  if roleIds = [] then return []
  else do
    let rolesTable ← getTableByName tablePrefix SystemTable.roles.name
    match rolesTable with
    | none => return []
    | some rolesTable =>
        let filter ← Program.ofExcept (filterIn (js "id") (roleIds.map FilterValue.number))
        let roles ← listAll rolesTable.id filter none
        let byId := recordsById roles
        return roleIds.filterMap byId.get

/-- `getUserRoles`. -/
def getUserRoles (userId : JsNumber) (pageOptionsDto : Option PageOptionsDto) :
    Paging (PageDto NocoRecord) := do
  let userRolesTable ← (getTableByName tablePrefix SystemTable.userRoles.name).lift
  match userRolesTable with
  | none => return ⟨[], PageMetaDto.of (pageOptionsDto.getD .initial) 0⟩
  | some userRolesTable =>
      let limit := (pageOptionsDto.bind PageOptionsDto.take).getD 10
      let offset := (pageOptionsDto.map PageOptionsDto.skip).getD 0
      let filter ← Program.ofExcept (filterEq (js "user_id") (.number userId))
      let response ← listWith userRolesTable.id
        { filter := some filter
          sort := some (js "role_id")
          fields := some [js "role_id"]
          limit := some limit
          offset := some offset
          withCount := true }
      let data ← (loadRoles tablePrefix (pageRoleIds response.list)).lift
      let totalRows := (response.pageInfo.map NocoPageInfo.totalRows).getD data.length
      let itemCount := if pageOptionsDto.isSome then totalRows else data.length
      return ⟨data, PageMetaDto.of (pageOptionsDto.getD .initial) itemCount⟩

end

/-! ## Assignments and the roles that they name -/

/-- The assignments of the user, in the order of the listing. -/
def assignmentsOf (order : SortOrder) (tablePrefix : JsString) (world : World)
    (userId : JsNumber) : List Row :=
  order.sortRows [⟨js "role_id", false⟩] ((systemRows tablePrefix world .userRoles).filter
    fun row => row.cell (js "user_id") = .number userId)

/-- The role of an id. -/
def roleWithId (roles : List Row) (id : JsNumber) : Option Row :=
  roles.find? fun role => JsNumber.ofNat role.id = id

/-- The existing role that an assignment names. -/
def assignedRole (roles : List Row) (assignment : Row) : Option Row :=
  roleWithId roles (assignment.cell (js "role_id")).toNumber

/-- The roles that the assignments of the user name. -/
def assignedRoles (order : SortOrder) (tablePrefix : JsString) (world : World)
    (userId : JsNumber) : List Row :=
  (assignmentsOf order tablePrefix world userId).filterMap
    (assignedRole (systemRows tablePrefix world .roles))

/-- A page: the roles that its assignments name, and the number of all assignments. -/
def userRolesPage (order : SortOrder) (tablePrefix : JsString) (world : World)
    (userId : JsNumber) (take page : Nat) : PageDto NocoRecord where
  data := ((pageAt (assignmentsOf order tablePrefix world userId) take (page - 1)).filterMap
    (assignedRole (systemRows tablePrefix world .roles))).map (flattenRecord none)
  pageMeta := PageMetaDto.of ⟨some page, some take⟩
    (assignmentsOf order tablePrefix world userId).length

/-- The data of all pages, one after the other. -/
def allPages (pages : Nat → PageDto NocoRecord) : List NocoRecord :=
  (List.range (pages 1).pageMeta.pageCount).flatMap fun index => (pages (index + 1)).data

/-- The field `role_id` of the assignments holds numbers or nothing, as its type says. -/
def HoldsRoleNumbers (assignments : List Row) : Prop :=
  ∀ row ∈ assignments, ∀ n, (row.cell (js "role_id")).toNumber = .ofNat n → 0 < n →
    row.cell (js "role_id") = .number (.ofNat n)

/-- The pages of the roles of a user.  They show the roles that the assignments name, in ascending
order, and each page but the last one is cut from `take` of the assignments.  The items that
are counted are the assignments, which are as many as the roles where all of them name one. -/
structure RolePages (tablePrefix : JsString) (world : World) (userId : JsNumber) (take : Nat)
    (assignments roles : List Row) (pages : Nat → PageDto NocoRecord) : Prop where
  perm : assignments.Perm ((systemRows tablePrefix world .userRoles).filter
    fun row => row.cell (js "user_id") = .number userId)
  named : roles = assignments.filterMap (assignedRole (systemRows tablePrefix world .roles))
  mem : ∀ role, role ∈ roles ↔ role ∈ systemRows tablePrefix world .roles ∧
    ∃ row ∈ systemRows tablePrefix world .userRoles, Assigns row userId role.id
  data : allPages pages = roles.map (flattenRecord none)
  itemCount : ∀ page, 0 < page → (pages page).pageMeta.itemCount = assignments.length
  part : ∀ page, 0 < page → page < (pages page).pageMeta.pageCount →
    (pageAt assignments take (page - 1)).length = take ∧
      (pages page).data = ((pageAt assignments take (page - 1)).filterMap
        (assignedRole (systemRows tablePrefix world .roles))).map (flattenRecord none)
  ascending : HoldsRoleNumbers assignments →
    roles.Pairwise fun first second => first.id ≤ second.id
  once : (∀ roleId, AtMostOne (fun row => (row.cell (js "role_id")).toNumber = .ofNat roleId)
    assignments) → roles.Nodup
  counted : (allPages pages).length = assignments.length ↔ ∀ assignment ∈ assignments,
    (assignedRole (systemRows tablePrefix world .roles) assignment).isSome = true
  full : (allPages pages).length = assignments.length →
    ∀ page, 0 < page → page < (pages page).pageMeta.pageCount → (pages page).data.length = take

section

variable {tablePrefix : JsString} {order : SortOrder} {world : World}

theorem recordsById_concat (roles : List NocoRecord) (role : NocoRecord) :
    recordsById (roles ++ [role]) = (recordsById roles).set role.id.toNumber role :=
  List.foldl_append

/-- The map holds the role of each id. -/
theorem get_recordsById {rows : List Row} (hkeys : (rows.map Row.id).Nodup) (id : JsNumber) :
    (recordsById (rows.map (flattenRecord none))).get id =
      (roleWithId rows id).map (flattenRecord none) := by
  induction rows using List.reverseRecOn with
  | nil => rfl
  | append_singleton rows row ih =>
      rw [List.map_append, List.nodup_append] at hkeys
      obtain ⟨hold, -, hfresh⟩ := hkeys
      have hkey : (flattenRecord none row).id.toNumber = .ofNat row.id := rfl
      rw [List.map_append, List.map_singleton, recordsById_concat, OrderedMap.get_set, hkey,
        ih hold]
      by_cases heq : id = .ofNat row.id
      · have hnone : roleWithId rows id = none := by
          rw [roleWithId, find_eq_none]
          intro other hother hid
          rw [heq, JsNumber.ofNat_inj] at hid
          exact hfresh other.id (List.mem_map_of_mem hother) row.id (by simp) hid
        rw [if_pos heq, roleWithId, find_concat_of_none hnone heq.symm]
        rfl
      · have hsame : roleWithId (rows ++ [row]) id = roleWithId rows id :=
          find_concat_of_not (Ne.symm heq)
        rw [if_neg heq, hsame]

/-- The roles of listed ids are found among the rows with one of these ids. -/
theorem roleWithId_filter {rows : List Row} {roleIds : List JsNumber} {id : JsNumber}
    (hid : id ∈ roleIds) :
    roleWithId (rows.filter fun row =>
      row.cell (fieldTitle (js "id")) ∈ roleIds.map JsValue.number) id = roleWithId rows id := by
  unfold roleWithId
  rw [List.find?_filter]
  congr 1
  funext row
  simp only [decide_eq_true_eq, decide_eq_decide]
  constructor
  · exact And.right
  · rintro rfl
    exact ⟨List.mem_map_of_mem hid, rfl⟩

/-- The roles of the ids, in their order. -/
theorem wp_loadRoles {roleIds : List JsNumber} {post : Except Exception (List NocoRecord) →
      World → Prop} (hnaturals : ∀ id ∈ roleIds, ∃ n, id = .ofNat n)
    (hloaded : ∀ world', Unchanged world world' →
      post (.ok (roleIds.filterMap fun id =>
        (roleWithId (systemRows tablePrefix world .roles) id).map (flattenRecord none))) world') :
    wp (nocodb false).contract (loadRoles tablePrefix roleIds) post world := by
  rw [loadRoles]
  by_cases hempty : roleIds = []
  · rw [if_pos hempty]
    subst hempty
    exact hloaded world (Unchanged.refl world)
  rw [if_neg hempty, wp_bind]
  apply wp_getTableByName
  · intro hfaults
    contradiction
  intro world₁ h₁
  rw [onOk_ok]
  cases htable : resolve tablePrefix world.tables SystemTable.roles.name with
  | none =>
      -- without the table there is no role to load
      have hnone : ∀ id, roleWithId (systemRows tablePrefix world .roles) id = none := by
        intro id
        simp only [systemRows, htable]
        rfl
      have hpost := hloaded world₁ h₁
      simpa [hnone] using hpost
  | some rolesTable =>
      obtain ⟨filter, hfilter⟩ := filterIn_naturals
        (by decide : filterFieldPattern.test (js "id") = true) hempty hnaturals
      show wp _ (Program.ofExcept (filterIn _ _) >>= _) _ _
      rw [hfilter, wp_bind, wp_ofExcept, onOk_ok, wp_bind]
      apply wp_listAll (selectRows_filterIn hfilter _)
      · intro hfaults
        contradiction
      intro world₂ h₂
      rw [onOk_ok, wp_pure, h₁.rows]
      have hpost := hloaded world₂ (h₁.trans h₂)
      rw [systemRows_eq htable] at hpost
      have hkeys : (((world.rows rolesTable.id).rows.filter fun row =>
          row.cell (fieldTitle (js "id")) ∈ roleIds.map JsValue.number).map Row.id).Nodup :=
        (world.rows rolesTable.id).keys.sublist (List.filter_sublist.map Row.id)
      have hsame : (roleIds.filterMap (recordsById (((world.rows rolesTable.id).rows.filter
            fun row => row.cell (fieldTitle (js "id")) ∈ roleIds.map JsValue.number).map
              (flattenRecord none))).get) =
          roleIds.filterMap fun id =>
            (roleWithId (world.rows rolesTable.id).rows id).map (flattenRecord none) := by
        apply List.filterMap_congr
        intro id hid
        rw [get_recordsById hkeys, roleWithId_filter hid]
      rw [hsame]
      exact hpost

/-! ## One page -/

/-- The role ids of a page name the roles of its assignments. -/
theorem filterMap_pageRoleIds (rows roles : List Row) :
    ((pageRoleIds (rows.map (flattenRecord (some [js "role_id"])))).filterMap fun id =>
        (roleWithId roles id).map (flattenRecord none)) =
      (rows.filterMap (assignedRole roles)).map (flattenRecord none) := by
  rw [pageRoleIds, List.filterMap_filter, List.filterMap_map, List.filterMap_map,
    List.map_filterMap]
  apply List.filterMap_congr
  intro row _
  have hcell : (flattenRecord (some [js "role_id"]) row).get (js "role_id") =
      row.cell (js "role_id") :=
    get_flattenRecord_of_mem (by simp) (by decide) (by decide)
  simp only [Function.comp_apply, hcell, assignedRole]
  split
  · rfl
  · next hnot =>
      -- the ids of roles are positive integers
      have hnone : roleWithId roles (row.cell (js "role_id")).toNumber = none := by
        rw [roleWithId, find_eq_none]
        intro role _ hid
        rw [JsNumber.positive_integer_iff] at hnot
        exact hnot ⟨role.id, role.positive, hid.symm⟩
      rw [hnone]
      rfl

theorem pageRoleIds_naturals (records : List NocoRecord) :
    ∀ id ∈ pageRoleIds records, ∃ n, id = .ofNat n := by
  intro id hid
  obtain ⟨-, hpositive⟩ := List.mem_filter.mp hid
  obtain ⟨n, -, heq⟩ := (JsNumber.positive_integer_iff id).mp hpositive
  exact ⟨n, heq⟩

theorem length_sortRows (sort : List SortEntry) (rows : List Row) :
    (order.sortRows sort rows).length = rows.length :=
  (order.perm sort rows).length_eq

/-- A filter is never the empty text, which `list` would leave out. -/
theorem ne_nil_of_filterEq {field filter : JsString} {value : JsNumber}
    (h : filterEq field (.number value) = .ok filter) : filter ≠ [] := by
  obtain ⟨title, -, h⟩ := bind_eq_ok.mp h
  obtain ⟨formatted, -, h⟩ := bind_eq_ok.mp h
  obtain rfl := Except.ok.inj h
  exact List.cons_ne_nil _ _

/-- A listing of assignments: a slice of them, and their number. -/
theorem wp_listAssignments {userId : JsNumber} {userRolesTable : TableMeta} {filter : JsString}
    {limit offset : Nat} {post : Except Exception NocoRecordListResponse → World → Prop}
    (htable : resolve tablePrefix world.tables SystemTable.userRoles.name = some userRolesTable)
    (hfilter : filterEq (js "user_id") (.number userId) = .ok filter)
    (hlisted : ∀ world', Unchanged world world' →
      post (.ok ⟨(slice (assignmentsOf order tablePrefix world userId) offset limit).map
          (flattenRecord (some [js "role_id"])),
        some ⟨(assignmentsOf order tablePrefix world userId).length, some limit⟩⟩) world') :
    wp (pagedNocodb order false).contract
      (listWith userRolesTable.id ⟨some filter, some (js "role_id"), some [js "role_id"],
        some limit, some offset, true⟩) post world := by
  have hselect : matchingRows world userRolesTable.id
      ((some filter).filter fun filter => filter ≠ []) =
        some ((systemRows tablePrefix world .userRoles).filter
          fun row => row.cell (js "user_id") = .number userId) := by
    rw [filter_ne_nil (ne_nil_of_filterEq hfilter), systemRows_eq htable]
    exact selectRows_filterEq hfilter (by decide) _
  have hsort : (listQuery userRolesTable.id ⟨some filter, some (js "role_id"),
      some [js "role_id"], some limit, some offset, true⟩).sort =
        some [⟨js "role_id", false⟩] := by
    show ((some (js "role_id")).filter fun sort => sort ≠ []).map toV3Sort = _
    decide
  apply wp_listWith rfl hselect
  intro world' h
  rw [hsort]
  have hlength : (assignmentsOf order tablePrefix world userId).length = _ :=
    length_sortRows _ _
  rw [← hlength]
  exact hlisted world' h

theorem assignmentsOf_of_unchanged {world' : World} (h : Unchanged world world')
    (userId : JsNumber) :
    assignmentsOf order tablePrefix world' userId =
      assignmentsOf order tablePrefix world userId := by
  rw [assignmentsOf, assignmentsOf, h.systemRows_eq]

/-- Where no request fails, `getUserRoles` answers with the page. -/
theorem wp_getUserRoles {userId : Nat} {take page : Nat} (hpage : 0 < page) (htake : 0 < take) :
    wp (pagedNocodb order false).contract
      (getUserRoles tablePrefix (.ofNat userId) (some ⟨some page, some take⟩))
      (fun result _ =>
        result = .ok (userRolesPage order tablePrefix world (.ofNat userId) take page)) world := by
  rw [getUserRoles, wp_bind]
  apply wp_lift_paged
  apply wp_getTableByName
  · intro hfaults
    contradiction
  intro world₁ h₁
  rw [onOk_ok]
  cases htable : resolve tablePrefix world.tables SystemTable.userRoles.name with
  | none =>
      have hempty : assignmentsOf order tablePrefix world (.ofNat userId) = [] := by
        rw [assignmentsOf, ← List.length_eq_zero_iff, length_sortRows]
        simp only [systemRows, htable]
        rfl
      show Except.ok _ = Except.ok _
      rw [userRolesPage, hempty, pageAt, slice_eq_nil (Nat.zero_le _)]
      rfl
  | some userRolesTable =>
      obtain ⟨filter, hfilter⟩ := filterEq_finite
        (by decide : filterFieldPattern.test (js "user_id") = true) (.ofNat userId)
      show wp _ (Program.ofExcept (filterEq _ (.number (.finite (.ofNat userId)))) >>= _) _ _
      rw [hfilter, wp_bind, wp_ofExcept, onOk_ok, wp_bind]
      rw [← h₁.tables] at htable
      apply wp_listAssignments htable hfilter
      intro world₂ h₂
      rw [onOk_ok, wp_bind]
      apply wp_lift_paged
      apply wp_loadRoles (pageRoleIds_naturals _)
      intro world₃ _
      rw [onOk_ok, filterMap_pageRoleIds, (h₁.trans h₂).systemRows_eq,
        assignmentsOf_of_unchanged h₁]
      have hslice := slice_skip (assignmentsOf order tablePrefix world (.ofNat userId)) hpage htake
      rw [userRolesPage, ← hslice]
      rfl

/-! ## All pages -/

theorem of_assignedRole {roles : List Row} {assignment role : Row}
    (h : assignedRole roles assignment = some role) :
    role ∈ roles ∧ (assignment.cell (js "role_id")).toNumber = .ofNat role.id := by
  obtain ⟨hmem, hid⟩ := of_find h
  exact ⟨hmem, hid.symm⟩

theorem allPages_userRolesPage {userId : JsNumber} {take : Nat} (htake : 0 < take) :
    allPages (userRolesPage order tablePrefix world userId take) =
      (assignedRoles order tablePrefix world userId).map (flattenRecord none) := by
  have hcount : (userRolesPage order tablePrefix world userId take 1).pageMeta.pageCount =
      pageCount (assignmentsOf order tablePrefix world userId).length take :=
    PageMetaDto.pageCount_of htake _ _
  have htile := flatMap_pageAt (assignmentsOf order tablePrefix world userId) htake
  rw [allPages, hcount, assignedRoles]
  conv_rhs => rw [← htile]
  rw [List.filterMap_flatMap, List.map_flatMap]
  rfl

/-- The assignments come in the order of their role ids, and so do the roles. -/
theorem assignedRoles_ascending {userId : JsNumber}
    (hnumbers : HoldsRoleNumbers (assignmentsOf order tablePrefix world userId)) :
    (assignedRoles order tablePrefix world userId).Pairwise fun first second =>
      first.id ≤ second.id := by
  rw [assignedRoles, List.pairwise_filterMap]
  have hascending := order.ascending (js "role_id")
    ((systemRows tablePrefix world .userRoles).filter
      fun row => row.cell (js "user_id") = .number userId)
  apply hascending.imp_of_mem
  intro first second hfirst hsecond hle role hrole other hother
  obtain ⟨-, hid⟩ := of_assignedRole hrole
  obtain ⟨-, hotherId⟩ := of_assignedRole hother
  exact hle role.id other.id (hnumbers first hfirst role.id hid role.positive)
    (hnumbers second hsecond other.id hotherId other.positive)

theorem nodup_systemRows (tablePrefix : JsString) (world : World) (table : SystemTable) :
    (systemRows tablePrefix world table).Nodup := by
  unfold systemRows
  split
  · exact List.nodup_nil
  · exact (world.rows _).keys.of_map

/-- A role is shown once, if it is assigned once. -/
theorem assignedRoles_nodup {userId : JsNumber}
    (hone : ∀ roleId, AtMostOne (fun row => (row.cell (js "role_id")).toNumber = .ofNat roleId)
      (assignmentsOf order tablePrefix world userId)) :
    (assignedRoles order tablePrefix world userId).Nodup := by
  have hrows : (assignmentsOf order tablePrefix world userId).Nodup :=
    (order.perm _ _).nodup_iff.mpr ((nodup_systemRows tablePrefix world .userRoles).filter _)
  rw [assignedRoles, List.Nodup, List.pairwise_filterMap]
  apply hrows.imp_of_mem
  rintro first second hfirst hsecond hne role hrole other hother rfl
  obtain ⟨-, hid⟩ := of_assignedRole hrole
  obtain ⟨-, hotherId⟩ := of_assignedRole hother
  exact hne (hone role.id first hfirst second hsecond hid hotherId)

theorem mem_assignmentsOf {userId : JsNumber} {row : Row} :
    row ∈ assignmentsOf order tablePrefix world userId ↔
      row ∈ systemRows tablePrefix world .userRoles ∧
        row.cell (js "user_id") = .number userId := by
  rw [assignmentsOf, (order.perm _ _).mem_iff, List.mem_filter, decide_eq_true_iff]

/-- The roles that are shown are the existing ones that are assigned to the user. -/
theorem mem_assignedRoles {userId : JsNumber} {role : Row} :
    role ∈ assignedRoles order tablePrefix world userId ↔
      role ∈ systemRows tablePrefix world .roles ∧
        ∃ row ∈ systemRows tablePrefix world .userRoles, Assigns row userId role.id := by
  rw [assignedRoles, List.mem_filterMap]
  constructor
  · rintro ⟨row, hrow, hassigned⟩
    obtain ⟨hassignment, huser⟩ := mem_assignmentsOf.mp hrow
    obtain ⟨hrole, hid⟩ := of_assignedRole hassigned
    exact ⟨hrole, row, hassignment, huser, hid⟩
  · rintro ⟨hrole, row, hassignment, huser, hid⟩
    refine ⟨row, mem_assignmentsOf.mpr ⟨hassignment, huser⟩, ?_⟩
    -- the id is the key of the table of roles
    apply find_of_unique hrole hid.symm
    intro other hother hother'
    rw [hid, JsNumber.ofNat_inj] at hother'
    exact eq_of_mem_systemRows hother hrole hother'

/-- The pages of `getUserRoles` are pages of the roles of the user. -/
theorem rolePages_userRolesPage {userId : JsNumber} {take : Nat} (htake : 0 < take) :
    RolePages tablePrefix world userId take (assignmentsOf order tablePrefix world userId)
      (assignedRoles order tablePrefix world userId)
      (userRolesPage order tablePrefix world userId take) := by
  -- the take of the options is positive, so it is not replaced by its default
  have hcount : ∀ page,
      (userRolesPage order tablePrefix world userId take page).pageMeta.pageCount =
        pageCount (assignmentsOf order tablePrefix world userId).length take := by
    intro page
    exact PageMetaDto.pageCount_of htake _ _
  have hpart : ∀ page, 0 < page →
      page < (userRolesPage order tablePrefix world userId take page).pageMeta.pageCount →
      (pageAt (assignmentsOf order tablePrefix world userId) take (page - 1)).length = take := by
    intro page hpage hlast
    rw [hcount] at hlast
    apply length_pageAt htake
    rwa [Nat.sub_add_cancel hpage]
  have hcounted : (allPages (userRolesPage order tablePrefix world userId take)).length =
      (assignmentsOf order tablePrefix world userId).length ↔
        ∀ assignment ∈ assignmentsOf order tablePrefix world userId,
          (assignedRole (systemRows tablePrefix world .roles) assignment).isSome = true := by
    rw [allPages_userRolesPage htake, List.length_map]
    exact List.filterMap_length_eq_length
  constructor
  · exact order.perm _ _
  · rfl
  · exact fun role => mem_assignedRoles
  · exact allPages_userRolesPage htake
  · exact fun page _ => rfl
  · exact fun page hpage hlast => ⟨hpart page hpage hlast, rfl⟩
  · exact assignedRoles_ascending
  · exact assignedRoles_nodup
  · exact hcounted
  -- where every assignment names a role, a page has as many roles as assignments
  · intro hall page hpage hlast
    rw [userRolesPage, List.length_map]
    apply Eq.trans _ (hpart page hpage hlast)
    apply List.filterMap_length_eq_length.mpr
    intro assignment hassignment
    apply hcounted.mp hall
    exact List.mem_of_mem_drop (List.mem_of_mem_take hassignment)

theorem userRolesPage_congr {world' : World} (htables : world'.tables = world.tables)
    (hrows : world'.rows = world.rows) (userId : JsNumber) (take page : Nat) :
    userRolesPage order tablePrefix world' userId take page =
      userRolesPage order tablePrefix world userId take page := by
  unfold userRolesPage assignmentsOf systemRows
  rw [htables, hrows]

/-- On a store that does not change and where no request fails, `getUserRoles` always succeeds,
and its pages are pages of the roles of the user. -/
theorem getUserRoles_pages (order : SortOrder) (tablePrefix : JsString) (world : World)
    (userId : Nat) {take : Nat} (htake : 0 < take) :
    ∃ assignments roles pages,
      RolePages tablePrefix world (.ofNat userId) take assignments roles pages ∧
      ∀ page, 0 < page → ∀ world' result final, world'.tables = world.tables →
        world'.rows = world.rows →
        Exec (pagedNocodb order false).contract
          (getUserRoles tablePrefix (.ofNat userId) (some ⟨some page, some take⟩)) world' result
          final → result = .ok (pages page) := by
  refine ⟨assignmentsOf order tablePrefix world (.ofNat userId),
    assignedRoles order tablePrefix world (.ofNat userId),
    userRolesPage order tablePrefix world (.ofNat userId) take, rolePages_userRolesPage htake, ?_⟩
  intro page hpage world' result final htables hrows hexec
  rw [← userRolesPage_congr htables hrows]
  have hwp : wp (pagedNocodb order false).contract
      (getUserRoles tablePrefix (.ofNat userId) (some ⟨some page, some take⟩))
      (fun result _ =>
        result = .ok (userRolesPage order tablePrefix world' (.ofNat userId) take page)) world' :=
    wp_getUserRoles hpage htake
  have hresult := wp_sound hwp hexec
  exact hresult

end

/-- The value of a cell that holds a natural number. -/
def sortKey (field : JsString) (row : Row) : Nat :=
  match row.cell field with
  | .number (.finite x) => x.coefficient * 10 ^ x.exponent.toNat
  | _ => 0

theorem sortKey_of_cell {field : JsString} {row : Row} {n : Nat}
    (h : row.cell field = .number (.ofNat n)) : sortKey field row = n := by
  rw [sortKey, h]
  show (Decimal.normalize false n 0).coefficient *
    10 ^ (Decimal.normalize false n 0).exponent.toNat = n
  unfold Decimal.normalize
  split
  · next hzero =>
      rw [Nat.zero_mul]
      exact hzero.symm
  · show n / 10 ^ trailingZeros n * 10 ^ (0 + (trailingZeros n : Int)).toNat = n
    rw [Int.zero_add, Int.toNat_natCast]
    exact Nat.div_mul_cancel (pow_trailingZeros_dvd n)

/-- A stable sort by a field of natural numbers. -/
def numericOrder : SortOrder where
  sortRows sort rows :=
    match sort with
    | [⟨field, false⟩] => rows.insertionSort fun first second =>
        sortKey field first ≤ sortKey field second
    | _ => rows
  perm sort rows := by
    split
    · exact List.perm_insertionSort _ _
    · exact List.Perm.refl _
  ascending field rows := by
    have hsorted : (rows.insertionSort fun first second =>
        sortKey field first ≤ sortKey field second).Pairwise fun first second =>
          sortKey field first ≤ sortKey field second := by
      have : Std.Total fun first second => sortKey field first ≤ sortKey field second :=
        ⟨fun first second => Nat.le_total _ _⟩
      have : IsTrans Row fun first second => sortKey field first ≤ sortKey field second :=
        ⟨fun first second third => Nat.le_trans⟩
      exact List.pairwise_insertionSort _ rows
    apply hsorted.imp
    intro first second hle n m hfirst hsecond
    rwa [sortKey_of_cell hfirst, sortKey_of_cell hsecond] at hle

/-- The user 7 has the roles 5 and 3, and an assignment of the deleted role 4. -/
def danglingWorld : World :=
  .holding []
    [(SystemTable.roles.name, .ofRows [.ofCells 3 [], .ofCells 5 []]),
      (SystemTable.userRoles.name, .ofRows
        [.ofCells 1 [(js "user_id", .number (.ofNat 7)), (js "role_id", .number (.ofNat 5))],
          .ofCells 2 [(js "user_id", .number (.ofNat 7)), (js "role_id", .number (.ofNat 4))],
          .ofCells 3 [(js "user_id", .number (.ofNat 7)), (js "role_id", .number (.ofNat 3))]])]

/-- Choices of requests that all succeed at once. -/
def promptChoices : List Choice :=
  List.replicate 5 ⟨false, 1, [], 0⟩

/-- Of three pages of one assignment each, the second one is empty, and three items are counted
where there are two roles. -/
theorem dangling_role_counted :
    ∃ pages : Nat → PageDto NocoRecord,
      (∀ page ∈ [1, 2, 3], ∃ world', Exec (pagedNocodb numericOrder false).contract
        (getUserRoles [] (.ofNat 7) (some ⟨some page, some 1⟩)) danglingWorld (.ok (pages page))
        world') ∧
      (pages 1).pageMeta.pageCount = 3 ∧ (pages 1).pageMeta.itemCount = 3 ∧
      allPages pages = [⟨.number (.ofNat 3), []⟩, ⟨.number (.ofNat 5), []⟩] ∧
      (pages 2).data = [] := by
  refine ⟨userRolesPage numericOrder [] danglingWorld (.ofNat 7) 1, ?_, by decide +kernel,
    by decide +kernel, by decide +kernel, by decide +kernel⟩
  intro page hpage
  refine ⟨(pagedNocodb numericOrder false).final
    (getUserRoles [] (.ofNat 7) (some ⟨some page, some 1⟩)) promptChoices danglingWorld, ?_⟩
  apply System.exec_final
  revert page
  decide +kernel

theorem getUserRoles_pages_dangling :
    ∃ assignments roles pages,
      RolePages [] danglingWorld (.ofNat 7) 2 assignments roles pages ∧
      ∀ page, 0 < page → ∀ world' result final, world'.tables = danglingWorld.tables →
        world'.rows = danglingWorld.rows →
        Exec (pagedNocodb numericOrder false).contract
          (getUserRoles [] (.ofNat 7) (some ⟨some page, some 2⟩)) world' result
          final → result = .ok (pages page) :=
  getUserRoles_pages numericOrder [] danglingWorld 7 (by decide)

end Users
end NocoMiddleware
