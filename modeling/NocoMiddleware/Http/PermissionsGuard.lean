import NocoMiddleware.Runs.CacheCoherence

/-!
# `PermissionsGuard`

`canActivate` goes through the permissions that a handler requires, in their order.  Each of
them must be granted by the scope of the token or by the system tables; the first one that is
not ends the request.  From a coherent cache the guard decides by what the system tables grant
at that time, and leaves them as they are.
-/

namespace NocoMiddleware
namespace Http

open NocoMiddleware.Js NocoMiddleware.Filter NocoMiddleware.Tables NocoMiddleware.Store
open NocoMiddleware.Permissions NocoMiddleware.Foundation NocoMiddleware.Runs

/-! ## The guard -/

/-- `RequiredPermission`. -/
structure RequiredPermission where
  table : JsString
  action : CrudAction
  deriving DecidableEq

/-- `RequestUser`. -/
structure RequestUser where
  userId : JsValue
  scope : Option (List JsString)

/-- `Reflector.getAllAndOverride`: the metadata of the handler, or those of its class. -/
def getAllAndOverride {α : Type} (handler controller : Option α) : Option α :=
  handler.or controller

/-- The exception for a permission that is not granted. -/
def missingPermission (permission : RequiredPermission) : Exception :=
  .forbidden (js "Missing permission: " ++ permission.action.text ++ js " on " ++
    permission.table)

/-- The exception for a request without a user. -/
def notAuthenticated : Exception :=
  .forbidden (js "User not authenticated")

section

variable (tablePrefix : JsString)

/-- `hasPermission` of one required permission. -/
def hasPermission (user : RequestUser) (permission : RequiredPermission) : Service Bool :=
  if hasScopePermission user.scope permission.table permission.action then return true
  else canUserPerformAction tablePrefix user.userId.toNumber permission.table permission.action

/-- One round of the loop of `canActivate`. -/
def checkPermission (user : RequestUser) (permission : RequiredPermission) : Service PUnit := do
  let granted ← hasPermission tablePrefix user permission
  if granted then return PUnit.unit else throw (missingPermission permission)

/-- `canActivate`, with the permissions that the decorators of the handler and of its class
require. -/
def canActivate (handler controller : Option (List RequiredPermission))
    (user : Option RequestUser) : Service Bool :=
  match getAllAndOverride handler controller with
  | none => return true
  | some [] => return true
  | some requiredPermissions =>
      match user with
      | none => throw notAuthenticated
      | some user =>
          if user.userId.truthy then do
            forM requiredPermissions (checkPermission tablePrefix user)
            return true
          else throw notAuthenticated

end

/-! ## Lookups that answer -/

section

variable {tablePrefix : JsString} {world : World}

theorem answers_loadTablePermissions {userId : JsNumber} {username : JsValue}
    {roleNames : List JsValue} {existingRoleIds activeRoleIds : List JsNumber}
    (hne : activeRoleIds ≠ []) (hnaturals : ∀ id ∈ activeRoleIds, ∃ n, id = .ofNat n) :
    wp (nocodb false).contract
      (loadTablePermissions tablePrefix userId username roleNames existingRoleIds activeRoleIds)
      (fun result _ => result.isOk = true) world := by
  rw [loadTablePermissions, wp_bind]
  apply wp_getTableByName
  · intro hfaults
    contradiction
  intro world₁ _
  rw [onOk_ok]
  cases resolve tablePrefix world.tables SystemTable.tablePermissions.name with
  | none => rfl
  | some permissionsTable =>
      obtain ⟨filter, hfilter⟩ := filterIn_naturals
        (by decide : filterFieldPattern.test (js "role_id") = true) hne hnaturals
      simp only [hfilter, wp_bind, wp_ofExcept, onOk_ok]
      apply wp_listAll (selectRows_filterIn hfilter _)
      · intro hfaults
        contradiction
      intro world₂ _
      rw [onOk_ok, wp_bind]
      apply wp_call_synchronous rfl
      intro _ _ _
      rfl

theorem answers_loadRoles {userId : JsNumber} {username : JsValue} {roleIds : List JsNumber}
    (hne : roleIds ≠ []) (hnaturals : ∀ id ∈ roleIds, ∃ n, id = .ofNat n) :
    wp (nocodb false).contract (loadRoles tablePrefix userId username roleIds)
      (fun result _ => result.isOk = true) world := by
  rw [loadRoles, wp_bind]
  apply wp_getTableByName
  · intro hfaults
    contradiction
  intro world₁ _
  rw [onOk_ok]
  cases resolve tablePrefix world.tables SystemTable.roles.name with
  | none => rfl
  | some rolesTable =>
      obtain ⟨filter, hfilter⟩ := filterIn_naturals
        (by decide : filterFieldPattern.test (js "id") = true) hne hnaturals
      simp only [hfilter, wp_bind, wp_ofExcept, onOk_ok]
      apply wp_listAll (selectRows_filterIn hfilter _)
      · intro hfaults
        contradiction
      intro world₂ _
      rw [onOk_ok]
      split
      · rfl
      · next hactive =>
          apply answers_loadTablePermissions hactive
          intro id hid
          exact hnaturals id (List.mem_filter.mp hid).1

theorem answers_loadUserRoles (x : Decimal) {username : JsValue} :
    wp (nocodb false).contract (loadUserRoles tablePrefix (.finite x) username)
      (fun result _ => result.isOk = true) world := by
  rw [loadUserRoles, wp_bind]
  apply wp_getTableByName
  · intro hfaults
    contradiction
  intro world₁ _
  rw [onOk_ok]
  cases resolve tablePrefix world.tables SystemTable.userRoles.name with
  | none => rfl
  | some userRolesTable =>
      obtain ⟨filter, hfilter⟩ := filterEq_finite
        (by decide : filterFieldPattern.test (js "user_id") = true) x
      simp only [hfilter, wp_bind, wp_ofExcept, onOk_ok]
      apply wp_listAll (selectRows_filterEq hfilter (by decide) _)
      · intro hfaults
        contradiction
      intro world₂ _
      rw [onOk_ok]
      split
      · rfl
      · next hassigned =>
          apply answers_loadRoles hassigned
          intro id hid
          obtain ⟨-, n, -, hn⟩ := mem_assignedRoleIds.mp hid
          exact ⟨n, hn⟩

/-- Where no request fails, the lookup for an id that is a finite number answers. -/
theorem answers_getUserPermissions (x : Decimal) :
    wp (nocodb false).contract (getUserPermissions tablePrefix (.finite x))
      (fun result _ => result.isOk = true) world := by
  rw [getUserPermissions, wp_bind]
  apply wp_call_synchronous rfl
  intro _ world₁ _
  rw [answer, onOk_ok]
  split
  · rfl
  · rw [loadUserPermissions, wp_bind]
    apply wp_getTableByName
    · intro hfaults
      contradiction
    intro world₂ _
    rw [onOk_ok]
    cases resolve tablePrefix world₁.tables SystemTable.users.name with
    | none => rfl
    | some usersTable =>
        rw [wp_bind]
        apply wp_read
        · intro hfaults
          contradiction
        intro user world₃ _
        exact answers_loadUserRoles x

end

/-! ## What it decides -/

/-- The scope of the user or the system tables grant the permission. -/
def Holds (tablePrefix : JsString) (world : World) (user : RequestUser)
    (permission : RequiredPermission) : Prop :=
  hasScopePermission user.scope permission.table permission.action = true ∨
    Grants tablePrefix world user.userId.toNumber permission.table permission.action

/-- The request has a user that holds every required permission. -/
def Admits (tablePrefix : JsString) (world : World) (required : List RequiredPermission)
    (user : Option RequestUser) : Prop :=
  required = [] ∨ ∃ caller, user = some caller ∧ caller.userId.truthy = true ∧
    ∀ permission ∈ required, Holds tablePrefix world caller permission

/-- A lookup may fail instead of answering: a request to NocoDB fails, or no filter can be built
for the id, which then has no grants at all. -/
def LookupFails (tablePrefix : JsString) (faults : Bool) (world : World) (userId : JsNumber) :
    Prop :=
  faults = true ∨
    (∀ x, userId ≠ .finite x) ∧ ∀ table action, ¬ Grants tablePrefix world userId table action

/-- A permission is not granted: the user does not hold it, or it was not found out. -/
def Refuses (tablePrefix : JsString) (faults : Bool) (world : World) (caller : RequestUser)
    (permission : RequiredPermission) (exception : Exception) : Prop :=
  (¬ Holds tablePrefix world caller permission ∧ exception = missingPermission permission) ∨
    (hasScopePermission caller.scope permission.table permission.action = false ∧
      LookupFails tablePrefix faults world caller.userId.toNumber)

/-- The loop ends with an exception at the first permission that is not granted. -/
def StopsAt (tablePrefix : JsString) (faults : Bool) (world : World) (caller : RequestUser)
    (required : List RequiredPermission) (exception : Exception) : Prop :=
  ∃ completed permission rest, required = completed ++ permission :: rest ∧
    (∀ earlier ∈ completed, Holds tablePrefix world caller earlier) ∧
    Refuses tablePrefix faults world caller permission exception

/-- The request ends with an exception: it has no user, or the loop ends. -/
def Denied (tablePrefix : JsString) (faults : Bool) (world : World)
    (required : List RequiredPermission) (user : Option RequestUser) (exception : Exception) :
    Prop :=
  (required ≠ [] ∧ (∀ caller, user = some caller → caller.userId.truthy = false) ∧
      exception = notAuthenticated) ∨
    ∃ caller, user = some caller ∧ caller.userId.truthy = true ∧
      StopsAt tablePrefix faults world caller required exception

/-- The tables and the rows are the same, and the cache is still coherent. -/
structure OnlyRead (tablePrefix : JsString) (world world' : World) : Prop where
  tables : world'.tables = world.tables
  rows : world'.rows = world.rows
  clock : world.clock ≤ world'.clock
  invariant : CacheInvariant tablePrefix world'

section

variable {tablePrefix : JsString} {faults : Bool} {world world' world'' : World}

namespace OnlyRead

theorem refl (h : CacheInvariant tablePrefix world) : OnlyRead tablePrefix world world :=
  ⟨rfl, rfl, Nat.le_refl _, h⟩

theorem trans (h : OnlyRead tablePrefix world world') (h' : OnlyRead tablePrefix world' world'') :
    OnlyRead tablePrefix world world'' :=
  ⟨h'.tables.trans h.tables, h'.rows.trans h.rows, h.clock.trans h'.clock, h'.invariant⟩

theorem of_unchanged (hinvariant : CacheInvariant tablePrefix world)
    (h : Unchanged world world') : OnlyRead tablePrefix world world' :=
  ⟨h.tables, h.rows, h.clock, cacheInvariant_unchanged _ _ h hinvariant⟩

theorem of_loaded {userId : JsNumber} (hinvariant : CacheInvariant tablePrefix world)
    (h : Loaded tablePrefix userId world world') : OnlyRead tablePrefix world world' := by
  have hkept := cacheInvariant_loaded userId _ _ h hinvariant
  rcases h with h | ⟨_, -, htables, hrows, hclock, -⟩
  · exact ⟨h.tables, h.rows, h.clock, hkept⟩
  · exact ⟨htables, hrows, hclock, hkept⟩

theorem systemRows_eq (h : OnlyRead tablePrefix world world') (table : SystemTable) :
    systemRows tablePrefix world' table = systemRows tablePrefix world table := by
  simp only [systemRows, h.tables, h.rows]

theorem grants_iff (h : OnlyRead tablePrefix world world') (userId : JsNumber)
    (table : JsString) (action : CrudAction) :
    Grants tablePrefix world' userId table action ↔
      Grants tablePrefix world userId table action := by
  simp only [Grants, HoldsRole, h.tables, h.systemRows_eq]

end OnlyRead

theorem holds_iff (h : OnlyRead tablePrefix world world') (user : RequestUser)
    (permission : RequiredPermission) :
    Holds tablePrefix world' user permission ↔ Holds tablePrefix world user permission := by
  rw [Holds, Holds, h.grants_iff]

theorem refuses_iff (h : OnlyRead tablePrefix world world') (user : RequestUser)
    (permission : RequiredPermission) (exception : Exception) :
    Refuses tablePrefix faults world' user permission exception ↔
      Refuses tablePrefix faults world user permission exception := by
  simp only [Refuses, LookupFails, holds_iff h, h.grants_iff]

/-- A lookup from a coherent cache answers what the system tables grant. -/
theorem wp_canUserPerformAction_coherent (hinvariant : CacheInvariant tablePrefix world)
    {userId : JsNumber} {table : JsString} {action : CrudAction} :
    wp (nocodb faults).contract (canUserPerformAction tablePrefix userId table action)
      (fun result world' => OnlyRead tablePrefix world world' ∧
        match result with
        | .ok granted => granted = true ↔ Grants tablePrefix world userId table action
        | .error _ => LookupFails tablePrefix faults world userId) world := by
  rw [canUserPerformAction, wp_bind, System.wp_iff_exec]
  intro result world' hexec
  have hresult := wp_sound wp_getUserPermissions hexec
  rcases hresult with ⟨value, hlive, rfl, hunchanged⟩ | hloads
  · exact ⟨.of_unchanged hinvariant hunchanged, hinvariant.1 userId value hlive table action⟩
  · cases result with
    | ok value =>
        obtain ⟨hallows, htables, hrows, hclock, hcache⟩ := hloads
        have hloaded : Loaded tablePrefix userId world world' := by
          rcases hcache with hcache | hcache
          · exact Or.inl ⟨htables, hrows, hcache, hclock⟩
          · exact Or.inr ⟨value, hallows, htables, hrows, hclock, hcache⟩
        exact ⟨.of_loaded hinvariant hloaded, hallows table action⟩
    | error exception =>
        refine ⟨.of_unchanged hinvariant hloads.1, ?_⟩
        rcases hloads.2 with hfaults | hnone
        · exact Or.inl hfaults
        · cases faults with
          | true => exact Or.inl rfl
          | false =>
              refine Or.inr ⟨?_, hnone⟩
              rintro x rfl
              exact Bool.noConfusion (wp_sound (answers_getUserPermissions x) hexec)

/-- One round of the loop. -/
theorem wp_checkPermission (hinvariant : CacheInvariant tablePrefix world) {user : RequestUser}
    {permission : RequiredPermission} :
    wp (nocodb faults).contract (checkPermission tablePrefix user permission)
      (fun result world' => OnlyRead tablePrefix world world' ∧
        match result with
        | .ok _ => Holds tablePrefix world user permission
        | .error exception => Refuses tablePrefix faults world user permission exception)
      world := by
  rw [checkPermission, hasPermission]
  by_cases hscope : hasScopePermission user.scope permission.table permission.action = true
  · rw [if_pos hscope]
    exact ⟨.refl hinvariant, Or.inl hscope⟩
  · rw [if_neg hscope, wp_bind]
    apply wp_mono (wp_canUserPerformAction_coherent hinvariant)
    rintro (exception | granted) world' ⟨hread, hresult⟩
    · exact ⟨hread, Or.inr ⟨Bool.eq_false_of_not_eq_true hscope, hresult⟩⟩
    · rw [onOk_ok]
      cases granted with
      | true => exact ⟨hread, Or.inr (hresult.mp rfl)⟩
      | false =>
          refine ⟨hread, Or.inl ⟨?_, rfl⟩⟩
          rintro (hholds | hgrants)
          · exact hscope hholds
          · exact Bool.noConfusion (hresult.mpr hgrants)

/-- The loop over the required permissions: those that are completed are held. -/
theorem wp_checkPermissions (hinvariant : CacheInvariant tablePrefix world) {caller : RequestUser}
    {required : List RequiredPermission} :
    wp (nocodb faults).contract (forM required (checkPermission tablePrefix caller))
      (fun result world' => OnlyRead tablePrefix world world' ∧
        match result with
        | .ok _ => ∀ permission ∈ required, Holds tablePrefix world caller permission
        | .error exception => StopsAt tablePrefix faults world caller required exception)
      world := by
  apply wp_forM fun remaining world' => OnlyRead tablePrefix world world' ∧
    ∃ completed, required = completed ++ remaining ∧
      ∀ earlier ∈ completed, Holds tablePrefix world caller earlier
  · rintro permission remaining world₁ ⟨hread, completed, hsplit, hcompleted⟩
    apply wp_mono (wp_checkPermission hread.invariant)
    rintro (exception | _) world₂ ⟨hread', hresult⟩
    · exact ⟨hread.trans hread', completed, permission, remaining, hsplit, hcompleted,
        (refuses_iff hread caller permission exception).mp hresult⟩
    · refine ⟨hread.trans hread', completed ++ [permission], ?_, ?_⟩
      · rw [hsplit, List.append_assoc, List.singleton_append]
      · intro earlier hearlier
        rcases List.mem_append.mp hearlier with hearlier | hearlier
        · exact hcompleted earlier hearlier
        · obtain rfl := List.mem_singleton.mp hearlier
          exact (holds_iff hread caller earlier).mp hresult
  · rintro world' ⟨hread, completed, hsplit, hcompleted⟩
    rw [List.append_nil] at hsplit
    rw [hsplit]
    exact ⟨hread, hcompleted⟩
  · exact ⟨.refl hinvariant, [], rfl, nofun⟩

/-- What the guard does from a coherent cache. -/
theorem wp_canActivate (hinvariant : CacheInvariant tablePrefix world)
    {handler controller : Option (List RequiredPermission)} {user : Option RequestUser} :
    wp (nocodb faults).contract (canActivate tablePrefix handler controller user)
      (fun result world' => OnlyRead tablePrefix world world' ∧
        match result with
        | .ok admitted => admitted = true ∧
            Admits tablePrefix world ((getAllAndOverride handler controller).getD []) user
        | .error exception =>
            Denied tablePrefix faults world ((getAllAndOverride handler controller).getD []) user
              exception) world := by
  rw [canActivate]
  cases getAllAndOverride handler controller with
  | none => exact ⟨.refl hinvariant, rfl, Or.inl rfl⟩
  | some required =>
      cases required with
      | nil => exact ⟨.refl hinvariant, rfl, Or.inl rfl⟩
      | cons first rest =>
          cases user with
          | none =>
              exact ⟨.refl hinvariant, Or.inl ⟨List.cons_ne_nil first rest, nofun, rfl⟩⟩
          | some caller =>
              by_cases huser : caller.userId.truthy = true
              · show wp _ (if caller.userId.truthy then _ else _) _ world
                rw [if_pos huser, wp_bind]
                apply wp_mono (wp_checkPermissions hinvariant)
                rintro (exception | _) world' ⟨hread, hresult⟩
                · exact ⟨hread, Or.inr ⟨caller, rfl, huser, hresult⟩⟩
                · exact ⟨hread, rfl, Or.inr ⟨caller, rfl, huser, hresult⟩⟩
              · show wp _ (if caller.userId.truthy then _ else _) _ world
                rw [if_neg huser]
                refine ⟨.refl hinvariant, Or.inl ⟨List.cons_ne_nil first rest, ?_, rfl⟩⟩
                rintro _ ⟨⟩
                exact Bool.eq_false_of_not_eq_true huser

/-- Where no request fails, what is refused is not held. -/
theorem not_holds_of_refuses {caller : RequestUser} {permission : RequiredPermission}
    {exception : Exception} (h : Refuses tablePrefix false world caller permission exception) :
    ¬ Holds tablePrefix world caller permission := by
  rcases h with ⟨hnot, -⟩ | ⟨hscope, hfails | ⟨-, hnone⟩⟩
  · exact hnot
  · contradiction
  · rintro (hheld | hgrants)
    · rw [hscope] at hheld
      contradiction
    · exact hnone _ _ hgrants

/-- Who is denied is not admitted, whatever the reason. -/
theorem not_admits_of_denied {required : List RequiredPermission} {user : Option RequestUser}
    {exception : Exception} (h : Denied tablePrefix false world required user exception) :
    ¬ Admits tablePrefix world required user := by
  rintro (rfl | ⟨caller, rfl, huser, hholds⟩)
  · rcases h with ⟨hne, -⟩ | ⟨_, -, -, completed, permission, rest, hsplit, -⟩
    · exact hne rfl
    · exact List.append_ne_nil_of_right_ne_nil completed (List.cons_ne_nil permission rest)
        hsplit.symm
  · rcases h with ⟨-, hnobody, -⟩ | ⟨_, ⟨⟩, -, completed, permission, rest, rfl, -, hrefuses⟩
    · rw [hnobody caller rfl] at huser
      contradiction
    · have hheld := hholds permission
        (List.mem_append_right completed List.mem_cons_self)
      exact not_holds_of_refuses hrefuses hheld

end

/-! ## After a run -/

/-- After every run of successful calls that are careful with the cache, the guard lets a request
through exactly if its user holds every required permission at that time, and otherwise ends it
at the first one that the user does not hold.  It changes nothing that the system tables grant. -/
theorem guard_exact_after_run (tablePrefix : JsString) {first world : World}
    (hempty : first.cache = .empty) (hdistinct : DistinctTables tablePrefix first.tables)
    (hrun : Relation.ReflTransGen (SequentialStep tablePrefix fun call world world' =>
      call.Careful tablePrefix world world') first world)
    (handler controller : Option (List RequiredPermission)) (user : Option RequestUser)
    {result : Except Exception Bool} {final : World}
    (hexec : Exec (nocodb false).contract (canActivate tablePrefix handler controller user) world
      result final) :
    OnlyRead tablePrefix world final ∧
      (result = .ok true ↔
        Admits tablePrefix world ((getAllAndOverride handler controller).getD []) user) ∧
      ∀ exception, result = .error exception →
        Denied tablePrefix false world ((getAllAndOverride handler controller).getD []) user
          exception := by
  have hinvariant := cacheInvariant_sequentialStep.reflTransGen _ _ hrun
    ⟨coherent_of_empty hempty, hdistinct⟩
  obtain ⟨hread, hresult⟩ := wp_sound (wp_canActivate hinvariant) hexec
  refine ⟨hread, ?_, ?_⟩
  · cases result with
    | ok admitted =>
        obtain ⟨rfl, hadmits⟩ := hresult
        exact iff_of_true rfl hadmits
    | error exception => exact iff_of_false nofun (not_admits_of_denied hresult)
  · rintro exception rfl
    exact hresult

/-- The user 7 may read orders, and no user is required to do more. -/
theorem guard_exact_after_run_reader :
    ∃ result final, Exec (nocodb false).contract
        (canActivate [] (some [⟨js "orders", .read⟩]) none
          (some ⟨.number (.ofNat 7), some []⟩)) readerWorld result final ∧
      OnlyRead [] readerWorld final ∧
      (result = .ok true ↔
        Admits [] readerWorld [⟨js "orders", .read⟩] (some ⟨.number (.ofNat 7), some []⟩)) ∧
      ∀ exception, result = .error exception →
        Denied [] false readerWorld [⟨js "orders", .read⟩]
          (some ⟨.number (.ofNat 7), some []⟩) exception := by
  obtain ⟨result, final, hexec⟩ := exists_exec (nocodb_total false)
    (canActivate [] (some [⟨js "orders", .read⟩]) none (some ⟨.number (.ofNat 7), some []⟩))
    readerWorld
  exact ⟨result, final, hexec, guard_exact_after_run [] rfl (distinctTables_systemTables [])
    .refl (some [⟨js "orders", .read⟩]) none (some ⟨.number (.ofNat 7), some []⟩) hexec⟩

end Http
end NocoMiddleware
