import NocoMiddleware.Users.UserRolesService

/-!
# `UserProvisioningService`

`createLocalUser` with `assignRolesByName`, and what they change: a user is
inserted, then roles are assigned to it.  The cache is not cleared.
-/

namespace NocoMiddleware
namespace Auth

open NocoMiddleware.Js NocoMiddleware.Filter NocoMiddleware.Tables NocoMiddleware.Store
open NocoMiddleware.Users NocoMiddleware.Foundation

/-- `ProvisionUserDto`. -/
structure ProvisionUserDto where
  username : JsString
  email : JsString
  password : JsString
  roles : Option (List JsString)
  isActive : Option Bool
  deriving DecidableEq

/-- `ResolvedIdentity`. -/
structure ResolvedIdentity where
  userId : JsNumber
  username : JsValue
  email : JsValue
  active : Bool
  roles : List JsString
  deriving DecidableEq

/-- `toResolvedIdentity` of a record. -/
def toResolvedIdentity (record : NocoRecord) (tokenRoles : List JsString) :
    Except Exception ResolvedIdentity := do
  let userId ← extractNumericId record
  return {
    userId := userId
    username := (record.get (js "username")).orElse (.string (js "unknown"))
    email := record.get (js "email")
    active := record.get (js "is_active") ≠ .boolean false
    roles := tokenRoles }

/-- The fields of a new local user. -/
def localUserData (dto : ProvisionUserDto) (passwordHash : JsString) : Payload :=
  [(js "username", .string dto.username), (js "email", .string dto.email),
    (js "password_hash", .string passwordHash),
    (js "is_active", .boolean (dto.isActive.getD true)),
    (js "auth_provider", .string (js "local")), (js "external_subject", .string dto.email)]

section

variable (tablePrefix : JsString)

/-- One round of the loop of `assignRolesByName`. -/
def assignRoleByName (rolesTable userRolesTable : TableMeta) (userId : JsNumber)
    (roleName : JsString) : Service PUnit := do
  let roleFilter ← Program.ofExcept (filterEqValue (js "role_name") (.string roleName))
  let role ← findOne rolesTable.id roleFilter
  match role with
  | none => return
  | some role =>
      if !role.id.truthy then return
      else
        let roleId ← Program.ofExcept (extractNumericId role)
        let filter ← Program.ofExcept
          (filterBoth (js "user_id") (.number userId) (js "role_id") (.number roleId))
        let existing ← findOne userRolesTable.id filter
        match existing with
        | some _ => return
        | none =>
            let assignedAt ← newDate
            let _ ← create userRolesTable.id (assignmentData userId roleId assignedAt)

/-- `assignRolesByName`. -/
def assignRolesByName (userId : JsNumber) (roleNames : List JsString) : Service PUnit := do
  let rolesTable ← getTableByName tablePrefix SystemTable.roles.name
  let rolesTable ← assertTableRef rolesTable
  let userRolesTable ← getTableByName tablePrefix SystemTable.userRoles.name
  let userRolesTable ← assertTableRef userRolesTable
  forM roleNames (assignRoleByName rolesTable userRolesTable userId)

/-- `createLocalUser`. -/
def createLocalUser (dto : ProvisionUserDto) : Service ResolvedIdentity := do
  let usersTable ← getTableByName tablePrefix SystemTable.users.name
  let usersTable ← assertTableRef usersTable
  let usernameFilter ← Program.ofExcept
    (filterEqValue (js "username") (.string dto.username))
  let byUsername ← findOne usersTable.id usernameFilter
  match byUsername with
  | some _ =>
      throw (.conflict (js "User with username \"" ++ dto.username ++ js "\" already exists"))
  | none =>
      let emailFilter ← Program.ofExcept (filterEqValue (js "email") (.string dto.email))
      let byEmail ← findOne usersTable.id emailFilter
      match byEmail with
      | some _ =>
          throw (.conflict (js "User with email \"" ++ dto.email ++ js "\" already exists"))
      | none =>
          let passwordHash ← hashPassword dto.password
          let created ← create usersTable.id (localUserData dto passwordHash)
          let resolved ← Program.ofExcept (toResolvedIdentity created (dto.roles.getD []))
          match dto.roles with
          | none => return resolved
          | some roles =>
              if roles.isEmpty then return resolved
              else
                assignRolesByName tablePrefix resolved.userId roles
                return resolved

end

/-! ## What the calls change -/

/-- Roles are assigned to a user without clearing the cache. -/
def AssignedQuietly (tablePrefix : JsString) (userId : JsNumber) : World → World → Prop :=
  Relation.ReflTransGen fun world world' =>
    Unchanged world world' ∨ ∃ roleId, Inserted tablePrefix userId roleId world world'

/-- A user is inserted; its row is no assignment and no permission. -/
def UserInserted (tablePrefix : JsString) (row : Row) (world world' : World) : Prop :=
  row.cell (js "user_id") = .undefined ∧ row.cell (js "table_name") = .undefined ∧
    Changed tablePrefix .users (.insert row) world world'

/-- Nothing changes, or a user is inserted and gets roles. -/
def UserCreated (tablePrefix : JsString) (world world' : World) : Prop :=
  Unchanged world world' ∨
    ∃ row middle, UserInserted tablePrefix row world middle ∧
      AssignedQuietly tablePrefix (.ofNat row.id) middle world'

/-- An assignment is inserted where there was none, with the fields of an assignment. -/
def RoleGiven (tablePrefix : JsString) (userId : JsNumber) (world world' : World) : Prop :=
  ∃ roleId assignedAt row,
    (∀ other ∈ systemRows tablePrefix world .userRoles, ¬ IsAssignment userId roleId other) ∧
      IsAssignment userId roleId row ∧ row.cell (js "table_name") = .undefined ∧
      row.cells = toCells (assignmentData userId roleId assignedAt) ∧
      Changed tablePrefix .userRoles (.insert row) world world'

/-- Roles are given to a user, one after the other. -/
def RolesGiven (tablePrefix : JsString) (userId : JsNumber) : World → World → Prop :=
  Relation.ReflTransGen fun world world' =>
    Unchanged world world' ∨ RoleGiven tablePrefix userId world world'

/-- How giving roles ends: it has given some of them, and is no conflict when it fails. -/
def RolesOutcome (tablePrefix : JsString) (userId : JsNumber) (world : World) :
    Except Exception PUnit → World → Prop
  | .ok _, world' => world'.tables = world.tables ∧ RolesGiven tablePrefix userId world world'
  | .error exception, world' =>
      exception.isConflict = false ∧ world'.tables = world.tables ∧
        RolesGiven tablePrefix userId world world'

/-- A local user is inserted where no user had its name or its email, and gets roles. -/
def LocalUserCreated (tablePrefix : JsString) (dto : ProvisionUserDto) (world world' : World) :
    Prop :=
  ((filterEqValue (js "username") (.string dto.username)).isOk = true ∧
    (filterEqValue (js "email") (.string dto.email)).isOk = true) ∧
  (∀ other ∈ systemRows tablePrefix world .users,
    other.cell (js "username") ≠ .string (trim dto.username) ∧
      other.cell (js "email") ≠ .string (trim dto.email)) ∧
    ∃ row passwordHash middle, row.cells = toCells (localUserData dto passwordHash) ∧
      Changed tablePrefix .users (.insert row) world middle ∧
      RolesGiven tablePrefix (.ofNat row.id) middle world'

/-- How `createLocalUser` ends: when it fails it has changed nothing, or has created the
user and then failed without a conflict. -/
def LocalUserOutcome (tablePrefix : JsString) (dto : ProvisionUserDto) (world : World) :
    Except Exception ResolvedIdentity → World → Prop
  | .ok _, world' => LocalUserCreated tablePrefix dto world world'
  | .error exception, world' =>
      Unchanged world world' ∨
        (exception.isConflict = false ∧ LocalUserCreated tablePrefix dto world world')

section

variable {faults : Bool} {tablePrefix : JsString}

/-- However `createLocalUser` ends, it has changed nothing or has created the user. -/
theorem unchanged_or_created {dto : ProvisionUserDto} {world world' : World}
    {result : Except Exception ResolvedIdentity}
    (h : LocalUserOutcome tablePrefix dto world result world') :
    Unchanged world world' ∨ LocalUserCreated tablePrefix dto world world' := by
  cases result with
  | ok identity => exact Or.inr h
  | error exception => exact Or.imp_right And.right h

theorem RoleGiven.inserted {userId : JsNumber} {world world' : World}
    (h : RoleGiven tablePrefix userId world world') :
    ∃ roleId, Inserted tablePrefix userId roleId world world' := by
  obtain ⟨roleId, assignedAt, row, habsent, hassignment, hname, -, hchanged⟩ := h
  exact ⟨roleId, habsent, row, hassignment, hname, hchanged⟩

theorem RolesGiven.assignedQuietly {userId : JsNumber} {world world' : World}
    (h : RolesGiven tablePrefix userId world world') :
    AssignedQuietly tablePrefix userId world world' := by
  have hstep : ∀ before after,
      Unchanged before after ∨ RoleGiven tablePrefix userId before after →
        Unchanged before after ∨ ∃ roleId, Inserted tablePrefix userId roleId before after :=
    fun before after h => h.imp_right RoleGiven.inserted
  exact Relation.ReflTransGen.mono hstep world world' h

/-- One round of `assignRolesByName` assigns a role that was not assigned, or changes
nothing. -/
theorem wp_assignRoleByName {world : World} {rolesTable userRolesTable : TableMeta}
    {userId : JsNumber} {roleName : JsString}
    (hfound : resolve tablePrefix world.tables SystemTable.userRoles.name =
      some userRolesTable) :
    wp (nocodb faults).contract (assignRoleByName rolesTable userRolesTable userId roleName)
      (RolesOutcome tablePrefix userId world) world := by
  have hquiet : ∀ world', Unchanged world world' → world'.tables = world.tables ∧
      RolesGiven tablePrefix userId world world' :=
    fun world' h => ⟨h.tables, .single (Or.inl h)⟩
  rw [assignRoleByName, wp_bind, wp_ofExcept]
  cases hroleFilter : filterEqValue (js "role_name") (.string roleName) with
  | error exception =>
      exact ⟨isConflict_of_filterEqValue hroleFilter, hquiet _ (Unchanged.refl world)⟩
  | ok roleFilter =>
      rw [onOk_ok, wp_bind]
      refine wp_findOne (selectRows_filterEqValue hroleFilter) (fun _ => Iff.rfl)
        (fun _ _ h => ⟨rfl, hquiet _ h⟩) (fun _ w₁ h₁ => hquiet _ h₁) ?_
      intro role _ _ w₁ h₁
      simp only [onOk_ok]
      split
      · exact hquiet _ h₁
      · simp only [wp_bind, wp_ofExcept, extractNumericId_flattenRecord, onOk_ok]
        cases hfilter : filterBoth (js "user_id") (.number userId) (js "role_id")
            (.number (.ofNat role.id)) with
        | error exception => exact ⟨isConflict_of_filterBoth hfilter, hquiet _ h₁⟩
        | ok filter =>
            rw [onOk_ok, wp_bind]
            refine wp_findOne (selectRows_filterBoth hfilter) (satisfies_isAssignment _ _)
              (fun _ _ h => ⟨rfl, hquiet _ (h₁.trans h)⟩) ?_
              (fun _ _ _ w₂ h₂ => hquiet _ (h₁.trans h₂))
            -- the pair is not assigned yet
            intro habsent w₂ h₂
            rw [onOk_ok, wp_bind]
            refine wp_newDate fun assignedAt w₃ h₃ => ?_
            have h := (h₁.trans h₂).trans h₃
            rw [onOk_ok, wp_bind]
            refine wp_create_changed h hfound (fun _ _ h' => ⟨rfl, hquiet _ h'⟩) ?_
            intro row w₄ hcells hchanged
            obtain ⟨hassignment, hname⟩ := isAssignment_of_cells (finite_of_filterBoth hfilter)
              hcells rfl
            have hgiven : RoleGiven tablePrefix userId world w₄ := by
              refine ⟨.ofNat role.id, assignedAt, row, ?_, hassignment, hname, hcells, hchanged⟩
              rwa [systemRows_eq hfound, ← h₁.rows]
            exact ⟨hchanged.tables, .single (Or.inr hgiven)⟩

theorem wp_assignRolesByName {world : World} {userId : JsNumber}
    {roleNames : List JsString} :
    wp (nocodb faults).contract (assignRolesByName tablePrefix userId roleNames)
      (RolesOutcome tablePrefix userId world) world := by
  have hquiet : ∀ world', Unchanged world world' → world'.tables = world.tables ∧
      RolesGiven tablePrefix userId world world' :=
    fun world' h => ⟨h.tables, .single (Or.inl h)⟩
  rw [assignRolesByName]
  refine wp_requiredTable (Unchanged.refl world) (fun _ _ hexception h => ⟨hexception, hquiet _ h⟩)
    fun rolesTable w₁ _ h₁ => ?_
  refine wp_requiredTable h₁ (fun _ _ hexception h => ⟨hexception, hquiet _ h⟩)
    fun userRolesTable w₂ hfound h => ?_
  refine wp_forM
    (fun _ world' => world'.tables = world.tables ∧ RolesGiven tablePrefix userId world world')
    ?_ (fun _ h => h) (hquiet _ h)
  rintro roleName remaining w₃ ⟨htables, h₃⟩
  have hfound₃ : resolve tablePrefix w₃.tables SystemTable.userRoles.name =
      some userRolesTable := by
    rw [htables, hfound]
  refine wp_mono (wp_assignRoleByName hfound₃) ?_
  rintro (exception | _) w₄ houtcome
  · obtain ⟨hconflict, htables₄, h₄⟩ := houtcome
    exact ⟨hconflict, htables₄.trans htables, h₃.trans h₄⟩
  · obtain ⟨htables₄, h₄⟩ := houtcome
    exact ⟨htables₄.trans htables, h₃.trans h₄⟩

/-- `createLocalUser` creates a user with roles where the name and the email are free. -/
theorem wp_createLocalUser_outcome {world : World} {dto : ProvisionUserDto} :
    wp (nocodb faults).contract (createLocalUser tablePrefix dto)
      (LocalUserOutcome tablePrefix dto world) world := by
  have hid : js "username" ≠ js "id" ∧ js "email" ≠ js "id" := by decide
  rw [createLocalUser]
  refine wp_requiredTable (Unchanged.refl world) (fun _ _ _ h => Or.inl h)
    fun usersTable w₁ hfound h₁ => ?_
  rw [wp_bind, wp_ofExcept]
  cases husername : filterEqValue (js "username") (.string dto.username) with
  | error exception => exact Or.inl h₁
  | ok usernameFilter =>
      rw [onOk_ok, wp_bind]
      refine wp_findOne (selectRows_filterEqValue husername) (fun _ => Iff.rfl)
        (fun _ _ h => Or.inl (h₁.trans h)) ?_ (fun _ _ _ w₂ h₂ => Or.inl (h₁.trans h₂))
      intro hnoName w₂ h₂
      have h₂ := h₁.trans h₂
      simp only [onOk_ok, wp_bind, wp_ofExcept]
      cases hemail : filterEqValue (js "email") (.string dto.email) with
      | error exception => exact Or.inl h₂
      | ok emailFilter =>
          rw [onOk_ok, wp_bind]
          refine wp_findOne (selectRows_filterEqValue hemail) (fun _ => Iff.rfl)
            (fun _ _ h => Or.inl (h₂.trans h)) ?_ (fun _ _ _ w₃ h₃ => Or.inl (h₂.trans h₃))
          intro hnoEmail w₃ h₃
          simp only [onOk_ok, wp_bind]
          refine wp_hashPassword fun passwordHash w₄ h₄ => ?_
          have h := (h₂.trans h₃).trans h₄
          rw [onOk_ok, wp_bind]
          refine wp_create_changed h hfound (fun _ _ h' => Or.inl h') ?_
          intro row w₅ hcells hchanged
          have hfree : ∀ other ∈ systemRows tablePrefix world .users,
              other.cell (js "username") ≠ .string (trim dto.username) ∧
                other.cell (js "email") ≠ .string (trim dto.email) := by
            intro other hother
            rw [systemRows_eq hfound] at hother
            have hname := hnoName other (by rwa [h₁.rows])
            have hmail := hnoEmail other (by rwa [h₂.rows])
            rw [eqCondition, satisfies_eq, fieldTitle, if_neg hid.1] at hname
            rw [eqCondition, satisfies_eq, fieldTitle, if_neg hid.2] at hmail
            exact ⟨hname, hmail⟩
          have hcreated : ∀ world', RolesGiven tablePrefix (.ofNat row.id) w₅ world' →
              LocalUserCreated tablePrefix dto world world' :=
            fun world' hroles =>
              ⟨⟨by rw [husername]; rfl, by rw [hemail]; rfl⟩, hfree, row, passwordHash, w₅, hcells,
                hchanged, hroles⟩
          -- the created record carries its key, so it resolves to an identity
          obtain ⟨resolved, hresolved, hid⟩ : ∃ resolved,
              toResolvedIdentity (flattenRecord none row) (dto.roles.getD []) = .ok resolved ∧
                resolved.userId = .ofNat row.id := ⟨_, rfl, rfl⟩
          simp only [onOk_ok, wp_bind, wp_ofExcept, hresolved]
          cases dto.roles with
          | none => exact hcreated _ .refl
          | some roles =>
              show wp _ (if roles.isEmpty = true then _ else _) _ w₅
              split
              · exact hcreated _ .refl
              · rw [wp_bind, hid]
                refine wp_mono wp_assignRolesByName fun result w₆ h₆ => ?_
                cases result with
                | ok _ => exact hcreated w₆ h₆.2
                | error exception => exact Or.inr ⟨h₆.1, hcreated w₆ h₆.2.2⟩

/-- A created local user is no assignment and no permission. -/
theorem LocalUserCreated.userCreated {dto : ProvisionUserDto} {world world' : World}
    (h : LocalUserCreated tablePrefix dto world world') : UserCreated tablePrefix world world' := by
  obtain ⟨-, -, row, passwordHash, middle, hcells, hchanged, hroles⟩ := h
  refine Or.inr ⟨row, middle, ⟨?_, ?_, hchanged⟩, hroles.assignedQuietly⟩
  · exact (Row.cell_of_cells hcells (by decide)).trans rfl
  · exact (Row.cell_of_cells hcells (by decide)).trans rfl

/-- `createLocalUser` creates a user with roles; when it fails it has changed nothing
or created the user with some of the roles. -/
theorem wp_createLocalUser {world : World} {dto : ProvisionUserDto} :
    wp (nocodb faults).contract (createLocalUser tablePrefix dto)
      (fun _ => UserCreated tablePrefix world) world := by
  apply wp_mono wp_createLocalUser_outcome
  intro result world' houtcome
  rcases unchanged_or_created houtcome with hunchanged | hcreated
  · exact Or.inl hunchanged
  · exact hcreated.userCreated

end

end Auth
end NocoMiddleware
