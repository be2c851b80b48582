import NocoMiddleware.Auth.UserProvisioningService

/-!
# `BootstrapAdminService`

`bootstrapAdmin` behind its token check, and what it changes: the admin role is
assigned to an existing user that does not have it, or to a new user.  The cache
is not cleared.
-/

namespace NocoMiddleware
namespace Auth

open NocoMiddleware.Js NocoMiddleware.Filter NocoMiddleware.Tables NocoMiddleware.Store
open NocoMiddleware.Users NocoMiddleware.Foundation

/-- `BootstrapAdminDto`. -/
structure BootstrapAdminDto where
  username : JsString
  email : JsString
  password : JsString
  deriving DecidableEq

/-- The answer of `bootstrapAdmin`. -/
structure BootstrappedAdmin where
  success : Bool
  userId : JsNumber
  username : JsString
  created : Bool
  deriving DecidableEq

/-! ## The token check -/

/-- The UTF-8 bytes of a code point; a lone surrogate is encoded as U+FFFD. -/
def utf8Bytes (codePoint : Nat) : List Nat :=
  let point := if 0xD800 ≤ codePoint ∧ codePoint ≤ 0xDFFF then 0xFFFD else codePoint
  if point < 0x80 then [point]
  else if point < 0x800 then [0xC0 + point / 64, 0x80 + point % 64]
  else if point < 0x10000 then
    [0xE0 + point / 4096, 0x80 + point / 64 % 64, 0x80 + point % 64]
  else
    [0xF0 + point / 262144, 0x80 + point / 4096 % 64, 0x80 + point / 64 % 64,
      0x80 + point % 64]

/-- `Buffer.from(text)`. -/
def bufferFrom (text : JsString) : List Nat :=
  (codePoints text).flatMap utf8Bytes

/-- `assertBootstrapAllowed`. -/
def assertBootstrapAllowed (configuredToken bootstrapToken : Option JsString) :
    Except Exception Unit :=
  match configuredToken.filter (· ≠ []) with
  | none => .error (.forbidden (js "Bootstrap token is not configured"))
  | some configuredToken =>
      match bootstrapToken.filter (· ≠ []) with
      | none => .error (.unauthorized (js "Missing bootstrap token"))
      | some bootstrapToken =>
          let provided := bufferFrom bootstrapToken
          let expected := bufferFrom configuredToken
          if provided.length ≠ expected.length then
            .error (.unauthorized (js "Invalid bootstrap token"))
          else if provided ≠ expected then
            .error (.unauthorized (js "Invalid bootstrap token"))
          else .ok ()

/-! ## `bootstrapAdmin` -/

/-- The fields of a new administrator. -/
def adminUserData (dto : BootstrapAdminDto) (passwordHash : JsString) : Payload :=
  [(js "username", .string dto.username), (js "email", .string dto.email),
    (js "password_hash", .string passwordHash), (js "is_active", .boolean true)]

/-- The fields of an assignment of the admin role. -/
def adminAssignmentData (userId adminRoleId : JsNumber) : Payload :=
  [(js "user_id", .number userId), (js "role_id", .number adminRoleId)]

/-- The email belongs to another user. -/
def emailTaken (dto : BootstrapAdminDto) (byUsername byEmail : Option NocoRecord) : Bool :=
  match byUsername, byEmail with
  | none, some record =>
      ((record.get (js "username")).orElse (.string [])).toText ≠ dto.username
  | _, _ => false

/-- The branch of `bootstrapAdmin` for an existing user. -/
def bootstrapExisting (dto : BootstrapAdminDto) (userRolesTable : TableMeta)
    (adminRoleId : JsNumber) (user : NocoRecord) : Service BootstrappedAdmin := do
  let existingUserId ← Program.ofExcept (extractNumericId user)
  let filter ← Program.ofExcept
    (filterBoth (js "user_id") (.number existingUserId) (js "role_id") (.number adminRoleId))
  let existing ← findOne userRolesTable.id filter
  match existing with
  | some _ => return ⟨true, existingUserId, dto.username, false⟩
  | none =>
      let _ ← create userRolesTable.id (adminAssignmentData existingUserId adminRoleId)
      return ⟨true, existingUserId, dto.username, false⟩

/-- The branch of `bootstrapAdmin` for a new user. -/
def bootstrapNew (dto : BootstrapAdminDto) (usersTable userRolesTable : TableMeta)
    (adminRoleId : JsNumber) : Service BootstrappedAdmin := do
  let passwordHash ← hashPassword dto.password
  let createdUser ← create usersTable.id (adminUserData dto passwordHash)
  let userId ← Program.ofExcept (extractNumericId createdUser)
  let _ ← create userRolesTable.id (adminAssignmentData userId adminRoleId)
  return ⟨true, userId, dto.username, true⟩

/-- The part of `bootstrapAdmin` after the lookups of the user. -/
def bootstrapLookedUp (dto : BootstrapAdminDto)
    (usersTable rolesTable userRolesTable : TableMeta)
    (existingByUsername existingByEmail : Option NocoRecord) : Service BootstrappedAdmin := do
  if emailTaken dto existingByUsername existingByEmail then
    throw (.conflict (js "User with email \"" ++ dto.email ++ js "\" already exists"))
  else
    let adminFilter ← Program.ofExcept
      (filterEqValue (js "role_name") (.string (js "admin")))
    let adminRole ← findOne rolesTable.id adminFilter
    match adminRole with
    | none => throw (.notFound (js "Admin role is missing"))
    | some adminRole =>
        let adminRoleId ← Program.ofExcept (extractNumericId adminRole)
        match existingByUsername with
        | some user => bootstrapExisting dto userRolesTable adminRoleId user
        | none => bootstrapNew dto usersTable userRolesTable adminRoleId

/-- The part of `bootstrapAdmin` after the tables are found. -/
def bootstrapUser (dto : BootstrapAdminDto)
    (usersTable rolesTable userRolesTable : TableMeta) : Service BootstrappedAdmin := do
  let usernameFilter ← Program.ofExcept
    (filterEqValue (js "username") (.string dto.username))
  let existingByUsername ← findOne usersTable.id usernameFilter
  let emailFilter ← Program.ofExcept (filterEqValue (js "email") (.string dto.email))
  let existingByEmail ← findOne usersTable.id emailFilter
  bootstrapLookedUp dto usersTable rolesTable userRolesTable existingByUsername existingByEmail

/-- `bootstrapAdmin`. -/
def bootstrapAdmin (tablePrefix : JsString) (configuredToken : Option JsString)
    (dto : BootstrapAdminDto) (bootstrapToken : Option JsString) :
    Service BootstrappedAdmin := do
  Program.ofExcept (assertBootstrapAllowed configuredToken bootstrapToken)
  let usersTable ← getTableByName tablePrefix SystemTable.users.name
  let usersTable ← assertTableRef usersTable
  let rolesTable ← getTableByName tablePrefix SystemTable.roles.name
  let rolesTable ← assertTableRef rolesTable
  let userRolesTable ← getTableByName tablePrefix SystemTable.userRoles.name
  let userRolesTable ← assertTableRef userRolesTable
  bootstrapUser dto usersTable rolesTable userRolesTable

/-! ## What the call changes -/

/-- The row is of a user with the name, or of the admin role. -/
def IsNamed (field name : JsString) (row : Row) : Prop :=
  row.cell field = .string (trim name)

/-- The admin role is assigned to an existing user of that name that does not have
it. -/
def AdminAssigned (tablePrefix : JsString) (dto : BootstrapAdminDto) (world world' : World) :
    Prop :=
  ∃ user ∈ systemRows tablePrefix world .users, IsNamed (js "username") dto.username user ∧
    ∃ role ∈ systemRows tablePrefix world .roles, IsNamed (js "role_name") (js "admin") role ∧
      Inserted tablePrefix (.ofNat user.id) (.ofNat role.id) world world'

/-- A user is inserted and gets a role, without a lookup. -/
def AdminCreated (tablePrefix : JsString) (world world' : World) : Prop :=
  ∃ user middle, UserInserted tablePrefix user world middle ∧
    (Unchanged middle world' ∨
      ∃ row roleId, IsAssignment (.ofNat user.id) roleId row ∧
        row.cell (js "table_name") = .undefined ∧
        Changed tablePrefix .userRoles (.insert row) middle world')

section

variable {faults : Bool} {tablePrefix : JsString}

theorem satisfies_isNamed {field : JsString} (hid : field ≠ js "id") (name : JsString)
    (row : Row) :
    satisfies row (eqCondition field (.string name)) = true ↔ IsNamed field name row := by
  rw [eqCondition, satisfies_eq, fieldTitle, if_neg hid, IsNamed]

theorem wp_bootstrapExisting {world : World} {dto : BootstrapAdminDto} {user role : Row}
    {userRolesTable : TableMeta}
    (hfound : resolve tablePrefix world.tables SystemTable.userRoles.name =
      some userRolesTable) :
    wp (nocodb faults).contract
      (bootstrapExisting dto userRolesTable (.ofNat role.id) (flattenRecord none user))
      (fun _ world' => Unchanged world world' ∨
        Inserted tablePrefix (.ofNat user.id) (.ofNat role.id) world world') world := by
  rw [bootstrapExisting]
  simp only [extractNumericId_flattenRecord, wp_bind, wp_ofExcept, onOk_ok]
  cases hfilter : filterBoth (js "user_id") (.number (.ofNat user.id)) (js "role_id")
      (.number (.ofNat role.id)) with
  | error exception => exact Or.inl (Unchanged.refl world)
  | ok filter =>
      rw [onOk_ok, wp_bind]
      refine wp_findOne (selectRows_filterBoth hfilter) (satisfies_isAssignment _ _)
        (fun _ _ h => Or.inl h) ?_ (fun _ _ _ w₁ h₁ => Or.inl h₁)
      intro habsent w₁ h₁
      rw [onOk_ok, wp_bind]
      refine wp_create_changed h₁ hfound (fun _ _ h => Or.inl h) ?_
      intro row w₂ hcells hchanged
      obtain ⟨hassignment, hname⟩ := isAssignment_of_cells (finite_of_filterBoth hfilter)
        hcells rfl
      refine Or.inr ⟨?_, row, hassignment, hname, hchanged⟩
      rwa [systemRows_eq hfound]

theorem wp_bootstrapNew {world : World} {dto : BootstrapAdminDto} {role : Row}
    {usersTable userRolesTable : TableMeta}
    (husers : resolve tablePrefix world.tables SystemTable.users.name = some usersTable)
    (huserRoles : resolve tablePrefix world.tables SystemTable.userRoles.name =
      some userRolesTable) :
    wp (nocodb faults).contract
      (bootstrapNew dto usersTable userRolesTable (.ofNat role.id))
      (fun _ world' => Unchanged world world' ∨ AdminCreated tablePrefix world world')
      world := by
  rw [bootstrapNew, wp_bind]
  refine wp_hashPassword fun passwordHash w₁ h₁ => ?_
  rw [onOk_ok, wp_bind]
  refine wp_create_changed h₁ husers (fun _ _ h => Or.inl h) ?_
  intro user w₂ hcells hchanged
  have hinserted : UserInserted tablePrefix user world w₂ :=
    ⟨(Row.cell_of_cells hcells (by decide)).trans rfl,
      (Row.cell_of_cells hcells (by decide)).trans rfl, hchanged⟩
  have huserRoles₂ : resolve tablePrefix w₂.tables SystemTable.userRoles.name =
      some userRolesTable := by
    rw [hchanged.tables, huserRoles]
  simp only [extractNumericId_flattenRecord, wp_bind, wp_ofExcept, onOk_ok]
  refine wp_create_changed (Unchanged.refl w₂) huserRoles₂
    (fun _ w₃ h₃ => Or.inr ⟨user, w₂, hinserted, Or.inl h₃⟩) ?_
  intro row w₃ hcells₃ hchanged₃
  obtain ⟨hassignment, hname⟩ := isAssignment_of_cells ⟨⟨_, rfl⟩, _, rfl⟩ hcells₃ rfl
  exact Or.inr ⟨user, w₂, hinserted, Or.inr ⟨row, _, hassignment, hname, hchanged₃⟩⟩

/-- What `bootstrapAdmin` may change. -/
def Bootstrapped (tablePrefix : JsString) (dto : BootstrapAdminDto) (world world' : World) :
    Prop :=
  Unchanged world world' ∨ AdminAssigned tablePrefix dto world world' ∨
    AdminCreated tablePrefix world world'

theorem Bootstrapped.of_unchanged {dto : BootstrapAdminDto} {first world world' : World}
    (hfirst : Unchanged first world) (h : Bootstrapped tablePrefix dto world world') :
    Bootstrapped tablePrefix dto first world' := by
  rcases h with h | ⟨user, huser, hname, role, hrole, hadmin, habsent, row, hrow⟩ |
    ⟨user, middle, ⟨hid, hname, hchanged⟩, hrest⟩
  · exact Or.inl (hfirst.trans h)
  · rw [hfirst.systemRows_eq] at huser hrole habsent
    refine Or.inr (Or.inl ⟨user, huser, hname, role, hrole, hadmin, habsent, row, hrow.1,
      hrow.2.1, hrow.2.2.of_unchanged hfirst⟩)
  · exact Or.inr (Or.inr ⟨user, middle, ⟨hid, hname, hchanged.of_unchanged hfirst⟩, hrest⟩)

theorem wp_bootstrapLookedUp {world : World} {dto : BootstrapAdminDto}
    {usersTable rolesTable userRolesTable : TableMeta}
    (husers : resolve tablePrefix world.tables SystemTable.users.name = some usersTable)
    (hroles : resolve tablePrefix world.tables SystemTable.roles.name = some rolesTable)
    (huserRoles : resolve tablePrefix world.tables SystemTable.userRoles.name =
      some userRolesTable)
    {byUsername byEmail : Option NocoRecord}
    (hbyUsername : ∀ record, byUsername = some record →
      ∃ user ∈ (world.rows usersTable.id).rows, IsNamed (js "username") dto.username user ∧
        record = flattenRecord none user) :
    wp (nocodb faults).contract
      (bootstrapLookedUp dto usersTable rolesTable userRolesTable byUsername byEmail)
      (fun _ => Bootstrapped tablePrefix dto world) world := by
  unfold bootstrapLookedUp
  split
  · exact Or.inl (Unchanged.refl world)
  · rw [wp_bind, wp_ofExcept]
    cases hadmin : filterEqValue (js "role_name") (.string (js "admin")) with
    | error exception => exact Or.inl (Unchanged.refl world)
    | ok adminFilter =>
        rw [onOk_ok, wp_bind]
        refine wp_findOne (selectRows_filterEqValue hadmin)
          (satisfies_isNamed (by decide) _) (fun _ _ h => Or.inl h)
          (fun _ w₁ h₁ => Or.inl h₁) ?_
        intro role hrole hnamed w₁ h₁
        have htables : ∀ {table found},
            resolve tablePrefix world.tables (SystemTable.name table) = some found →
            resolve tablePrefix w₁.tables (SystemTable.name table) = some found := by
          intro table found h
          rw [h₁.tables, h]
        simp only [extractNumericId_flattenRecord, wp_bind, wp_ofExcept, onOk_ok]
        cases byUsername with
        | none =>
            refine wp_mono (wp_bootstrapNew (htables husers) (htables huserRoles)) ?_
            intro _ w₂ h₂
            refine Bootstrapped.of_unchanged h₁ ?_
            rcases h₂ with h₂ | h₂
            · exact Or.inl h₂
            · exact Or.inr (Or.inr h₂)
        | some record =>
            obtain ⟨user, huser, hname, rfl⟩ := hbyUsername record rfl
            -- the user of that name is there already and only gets the role
            refine wp_mono (wp_bootstrapExisting (htables huserRoles)) ?_
            intro _ w₂ h₂
            refine Bootstrapped.of_unchanged h₁ ?_
            rcases h₂ with h₂ | h₂
            · exact Or.inl h₂
            · refine Or.inr (Or.inl ⟨user, ?_, hname, role, ?_, hnamed, h₂⟩)
              · rwa [h₁.systemRows_eq, systemRows_eq husers]
              · rwa [h₁.systemRows_eq, systemRows_eq hroles]

theorem wp_bootstrapUser {world : World} {dto : BootstrapAdminDto}
    {usersTable rolesTable userRolesTable : TableMeta}
    (husers : resolve tablePrefix world.tables SystemTable.users.name = some usersTable)
    (hroles : resolve tablePrefix world.tables SystemTable.roles.name = some rolesTable)
    (huserRoles : resolve tablePrefix world.tables SystemTable.userRoles.name =
      some userRolesTable) :
    wp (nocodb faults).contract (bootstrapUser dto usersTable rolesTable userRolesTable)
      (fun _ => Bootstrapped tablePrefix dto world) world := by
  rw [bootstrapUser, wp_bind, wp_ofExcept]
  cases husername : filterEqValue (js "username") (.string dto.username) with
  | error exception => exact Or.inl (Unchanged.refl world)
  | ok usernameFilter =>
      -- what is left to do once the lookup by name has answered
      have hrest : ∀ byUsername, (∀ record, byUsername = some record →
          ∃ user ∈ (world.rows usersTable.id).rows,
            IsNamed (js "username") dto.username user ∧ record = flattenRecord none user) →
          ∀ w₁, Unchanged world w₁ → wp (nocodb faults).contract
            (do
              let emailFilter ← Program.ofExcept
                (filterEqValue (js "email") (.string dto.email))
              let byEmail ← findOne usersTable.id emailFilter
              bootstrapLookedUp dto usersTable rolesTable userRolesTable byUsername byEmail)
            (fun _ => Bootstrapped tablePrefix dto world) w₁ := by
        intro byUsername hbyUsername w₁ h₁
        have hdone : ∀ byEmail w₂, Unchanged w₁ w₂ → wp (nocodb faults).contract
            (bootstrapLookedUp dto usersTable rolesTable userRolesTable byUsername byEmail)
            (fun _ => Bootstrapped tablePrefix dto world) w₂ := by
          intro byEmail w₂ h₂
          have h := h₁.trans h₂
          refine wp_mono (wp_bootstrapLookedUp ?_ ?_ ?_ ?_)
            fun _ _ h' => Bootstrapped.of_unchanged h h'
          · rw [h.tables, husers]
          · rw [h.tables, hroles]
          · rw [h.tables, huserRoles]
          · rwa [h.rows]
        rw [wp_bind, wp_ofExcept]
        cases hemail : filterEqValue (js "email") (.string dto.email) with
        | error exception => exact Or.inl h₁
        | ok emailFilter =>
            rw [onOk_ok, wp_bind]
            refine wp_findOne (selectRows_filterEqValue hemail) (fun _ => Iff.rfl)
              (fun _ _ h => Or.inl (h₁.trans h)) ?_ ?_
            · exact fun _ w₂ h₂ => hdone none w₂ h₂
            · exact fun _ _ _ w₂ h₂ => hdone _ w₂ h₂
      rw [onOk_ok, wp_bind]
      refine wp_findOne (selectRows_filterEqValue husername)
        (satisfies_isNamed (by decide) _) (fun _ _ h => Or.inl h) ?_ ?_
      · exact fun _ w₁ h₁ => hrest none (fun _ h => by cases h) w₁ h₁
      · intro user huser hname w₁ h₁
        refine hrest _ (fun record hrecord => ?_) w₁ h₁
        exact ⟨user, huser, hname, (Option.some.inj hrecord).symm⟩

/-- `bootstrapAdmin` assigns the admin role to the user of that name or to a new one;
when it fails it has changed nothing or created a user. -/
theorem wp_bootstrapAdmin {world : World} {configuredToken bootstrapToken : Option JsString}
    {dto : BootstrapAdminDto} :
    wp (nocodb faults).contract
      (bootstrapAdmin tablePrefix configuredToken dto bootstrapToken)
      (fun _ => Bootstrapped tablePrefix dto world) world := by
  rw [bootstrapAdmin, wp_bind, wp_ofExcept]
  cases assertBootstrapAllowed configuredToken bootstrapToken with
  | error exception => exact Or.inl (Unchanged.refl world)
  | ok _ =>
      have hfail : ∀ world', Unchanged world world' → Bootstrapped tablePrefix dto world world' :=
        fun world' h => Or.inl h
      rw [onOk_ok]
      refine wp_requiredTable (Unchanged.refl world) (fun _ _ _ h => hfail _ h)
        fun usersTable w₁ husers h₁ => ?_
      refine wp_requiredTable h₁ (fun _ _ _ h => hfail _ h) fun rolesTable w₂ hroles h₂ => ?_
      refine wp_requiredTable h₂ (fun _ _ _ h => hfail _ h)
        fun userRolesTable w₃ huserRoles h₃ => ?_
      refine wp_mono (wp_bootstrapUser ?_ ?_ ?_)
        fun _ _ h => Bootstrapped.of_unchanged h₃ h
      · rw [h₃.tables, husers]
      · rw [h₃.tables, hroles]
      · rw [h₃.tables, huserRoles]

end

end Auth
end NocoMiddleware
