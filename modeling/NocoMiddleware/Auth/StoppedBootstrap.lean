import NocoMiddleware.Auth.BootstrapAdminService
import NocoMiddleware.Store.StoppedRequests

/-!
# What a stopped `bootstrapAdmin` leaves behind

`LeftBehind` lists the stores that a run of `bootstrapAdmin` may leave behind wherever it
is stopped, and `Answered` the answers and stores of the runs that return.  All of it is
told by three lookups in the store that the run starts from: the user by name, the user
by email, and the admin role.
-/

namespace NocoMiddleware
namespace Auth

open NocoMiddleware.Js NocoMiddleware.Filter NocoMiddleware.Tables NocoMiddleware.Store
open NocoMiddleware.Users NocoMiddleware.Foundation

instance (field name : JsString) (row : Row) : Decidable (IsNamed field name row) :=
  inferInstanceAs (Decidable (_ = _))

/-- The first row of a system table that a lookup by name finds. -/
def lookup (tablePrefix : JsString) (world : World) (table : SystemTable)
    (field name : JsString) : Option Row :=
  (systemRows tablePrefix world table).find? fun row => IsNamed field name row

section

variable (tablePrefix : JsString) (dto : BootstrapAdminDto) (world : World)

/-- `existingByUsername`. -/
def namedUser : Option Row :=
  lookup tablePrefix world .users (js "username") dto.username

/-- `existingByEmail`. -/
def mailedUser : Option Row :=
  lookup tablePrefix world .users (js "email") dto.email

/-- The admin role. -/
def adminRole : Option Row :=
  lookup tablePrefix world .roles (js "role_name") (js "admin")

/-- The lookups reject the dto: the filter builder does not accept its username or its
email, or the email belongs to another user. -/
def Blocked : Prop :=
  (filterEqValue (js "username") (.string dto.username)).isOk = false ∨
    (filterEqValue (js "email") (.string dto.email)).isOk = false ∨
    emailTaken dto ((namedUser tablePrefix dto world).map (flattenRecord none))
      ((mailedUser tablePrefix dto world).map (flattenRecord none)) = true

/-- The token is the configured one, and the tables are there. -/
structure Allowed (configuredToken bootstrapToken : Option JsString) : Prop where
  token : assertBootstrapAllowed configuredToken bootstrapToken = .ok ()
  users : (resolve tablePrefix world.tables SystemTable.users.name).isSome = true
  roles : (resolve tablePrefix world.tables SystemTable.roles.name).isSome = true
  userRoles : (resolve tablePrefix world.tables SystemTable.userRoles.name).isSome = true

end

/-- The user has the role. -/
def HasRole (tablePrefix : JsString) (world : World) (user role : Row) : Prop :=
  ∃ row ∈ systemRows tablePrefix world .userRoles,
    IsAssignment (.ofNat user.id) (.ofNat role.id) row

/-- The role is assigned to the user. -/
def GivesRole (tablePrefix : JsString) (user role : Row) (world world' : World) : Prop :=
  ∃ row, row.cells = toCells (adminAssignmentData (.ofNat user.id) (.ofNat role.id)) ∧
    Changed tablePrefix .userRoles (.insert row) world world'

/-- A user is created from the dto. -/
def CreatesUser (tablePrefix : JsString) (dto : BootstrapAdminDto) (user : Row)
    (world world' : World) : Prop :=
  (∃ passwordHash, user.cells = toCells (adminUserData dto passwordHash)) ∧
    Changed tablePrefix .users (.insert user) world world'

/-- The stores that a run leaves behind, wherever it is stopped. -/
inductive LeftBehind (tablePrefix : JsString) (dto : BootstrapAdminDto) (world : World) :
    World → Prop where
  | unchanged {world' : World} (h : Unchanged world world') :
      LeftBehind tablePrefix dto world world'
  | assigned {world' : World} {user role : Row} (hopen : ¬ Blocked tablePrefix dto world)
      (huser : namedUser tablePrefix dto world = some user)
      (hrole : adminRole tablePrefix world = some role)
      (habsent : ¬ HasRole tablePrefix world user role)
      (hgives : GivesRole tablePrefix user role world world') :
      LeftBehind tablePrefix dto world world'
  | created {middle world' : World} {user role : Row} (hopen : ¬ Blocked tablePrefix dto world)
      (hfree : namedUser tablePrefix dto world = none)
      (hrole : adminRole tablePrefix world = some role)
      (hcreates : CreatesUser tablePrefix dto user world middle)
      (hrest : Unchanged middle world' ∨ GivesRole tablePrefix user role middle world') :
      LeftBehind tablePrefix dto world world'

/-- The answers of the runs that return, and the stores that they leave behind. -/
inductive Answered (tablePrefix : JsString) (dto : BootstrapAdminDto) (world : World) :
    BootstrappedAdmin → World → Prop where
  | known {world' : World} {user role : Row}
      (huser : namedUser tablePrefix dto world = some user)
      (hrole : adminRole tablePrefix world = some role)
      (hhas : HasRole tablePrefix world user role) (hunchanged : Unchanged world world') :
      Answered tablePrefix dto world ⟨true, .ofNat user.id, dto.username, false⟩ world'
  | assigned {world' : World} {user role : Row}
      (huser : namedUser tablePrefix dto world = some user)
      (hrole : adminRole tablePrefix world = some role)
      (habsent : ¬ HasRole tablePrefix world user role)
      (hgives : GivesRole tablePrefix user role world world') :
      Answered tablePrefix dto world ⟨true, .ofNat user.id, dto.username, false⟩ world'
  | created {middle world' : World} {user role : Row}
      (hfree : namedUser tablePrefix dto world = none)
      (hrole : adminRole tablePrefix world = some role)
      (hcreates : CreatesUser tablePrefix dto user world middle)
      (hgives : GivesRole tablePrefix user role middle world') :
      Answered tablePrefix dto world ⟨true, .ofNat user.id, dto.username, true⟩ world'

/-- What lets a run get to its end: the token and the tables, the lookups, and a filter on
the ids of the user and of the role. -/
structure Proceeds (tablePrefix : JsString) (dto : BootstrapAdminDto)
    (configuredToken bootstrapToken : Option JsString) (world : World) : Prop where
  allowed : Allowed tablePrefix world configuredToken bootstrapToken
  isOpen : ¬ Blocked tablePrefix dto world
  admin : (adminRole tablePrefix world).isSome = true
  ids : ∀ user role, namedUser tablePrefix dto world = some user →
    adminRole tablePrefix world = some role → user.id < 10 ^ 21 ∧ role.id < 10 ^ 21

/-- How a run ends: it returns, and was allowed and not blocked; or it throws, and a request
failed or something was missing. -/
def Ended (faults : Bool) (tablePrefix : JsString) (dto : BootstrapAdminDto)
    (configuredToken bootstrapToken : Option JsString) (world : World) :
    Except Exception BootstrappedAdmin → World → Prop
  | .ok answer, world' =>
      Allowed tablePrefix world configuredToken bootstrapToken ∧
        ¬ Blocked tablePrefix dto world ∧ Answered tablePrefix dto world answer world'
  | .error _, _ =>
      faults = false → ¬ Proceeds tablePrefix dto configuredToken bootstrapToken world

section

variable {faults : Bool} {tablePrefix : JsString} {dto : BootstrapAdminDto} {first world : World}
  {configuredToken bootstrapToken : Option JsString}

/-- A lookup by name, as the filter asks for it. -/
theorem find_eq_lookup {table : SystemTable} {found : TableMeta} {field name : JsString}
    (hfound : resolve tablePrefix world.tables table.name = some found)
    (hid : field ≠ js "id") :
    ((world.rows found.id).rows.find? fun row =>
        satisfies row (eqCondition field (.string name))) =
      lookup tablePrefix world table field name := by
  rw [lookup, systemRows_eq hfound]
  congr 1
  funext row
  rw [Bool.eq_iff_iff, satisfies_isNamed hid, decide_eq_true_iff]

/-- A failed request ends the run. -/
theorem ended_of_faults (hfaults : faults = true) {exception : Exception} {world' : World} :
    Ended faults tablePrefix dto configuredToken bootstrapToken first (.error exception)
      world' := by
  intro hnot
  rw [hfaults] at hnot
  contradiction

/-- The branch for an existing user. -/
theorem wpc_bootstrapExisting {user role : Row} {userRolesTable : TableMeta}
    (hallowed : Allowed tablePrefix first configuredToken bootstrapToken)
    (hopen : ¬ Blocked tablePrefix dto first)
    (huser : namedUser tablePrefix dto first = some user)
    (hrole : adminRole tablePrefix first = some role)
    (hfound : resolve tablePrefix first.tables SystemTable.userRoles.name = some userRolesTable)
    (hfirst : Unchanged first world) :
    wpc (nocodb faults).contract (LeftBehind tablePrefix dto first)
      (bootstrapExisting dto userRolesTable (.ofNat role.id) (flattenRecord none user))
      (Ended faults tablePrefix dto configuredToken bootstrapToken first) world := by
  have hcrash : ∀ world', Unchanged first world' → LeftBehind tablePrefix dto first world' :=
    fun world' h => .unchanged h
  rw [bootstrapExisting]
  apply wpc_bind
  refine ⟨hcrash world hfirst, ?_⟩
  rw [extractNumericId_flattenRecord, onOk_ok]
  apply wpc_bind
  refine ⟨hcrash world hfirst, ?_⟩
  cases hfilter : filterBoth (js "user_id") (.number (.ofNat user.id)) (js "role_id")
      (.number (.ofNat role.id)) with
  | error exception =>
      -- one of the ids is written with an exponent
      intro _ hproceeds
      obtain ⟨filter, hok⟩ := (filterBoth_assignment_iff _ _).mpr
        (hproceeds.ids user role huser hrole)
      rw [hfilter] at hok
      contradiction
  | ok filter =>
      rw [onOk_ok]
      apply wpc_single_bind (single_findOne _ _) (hcrash world hfirst)
      apply wp_findOne (selectRows_filterBoth hfilter) (satisfies_isAssignment _ _)
      · intro hfaults w₁ h₁
        exact ⟨hcrash w₁ (hfirst.trans h₁), ended_of_faults hfaults⟩
      · intro hnone w₁ h₁
        have h := hfirst.trans h₁
        have habsent : ¬ HasRole tablePrefix first user role := by
          rintro ⟨row, hrow, hassignment⟩
          rw [systemRows_eq hfound, ← hfirst.rows] at hrow
          exact hnone row hrow hassignment
        rw [onOk_ok]
        apply wpc_single_bind (Program.single_call _) (hcrash w₁ h)
        apply wp_create_changed h hfound
        · exact fun hfaults w₂ h₂ => ⟨hcrash w₂ h₂, ended_of_faults hfaults⟩
        · intro row w₂ hcells hchanged
          have hgives : GivesRole tablePrefix user role first w₂ := ⟨row, hcells, hchanged⟩
          exact ⟨.assigned hopen huser hrole habsent hgives, hallowed, hopen,
            .assigned huser hrole habsent hgives⟩
      · intro row hrow hassignment w₁ h₁
        have h := hfirst.trans h₁
        have hhas : HasRole tablePrefix first user role := by
          refine ⟨row, ?_, hassignment⟩
          rwa [systemRows_eq hfound, ← hfirst.rows]
        exact ⟨hcrash w₁ h, hallowed, hopen, .known huser hrole hhas h⟩

/-- The branch for a new user. -/
theorem wpc_bootstrapNew {role : Row} {usersTable userRolesTable : TableMeta}
    (hallowed : Allowed tablePrefix first configuredToken bootstrapToken)
    (hopen : ¬ Blocked tablePrefix dto first)
    (hfree : namedUser tablePrefix dto first = none)
    (hrole : adminRole tablePrefix first = some role)
    (husers : resolve tablePrefix first.tables SystemTable.users.name = some usersTable)
    (huserRoles : resolve tablePrefix first.tables SystemTable.userRoles.name =
      some userRolesTable)
    (hfirst : Unchanged first world) :
    wpc (nocodb faults).contract (LeftBehind tablePrefix dto first)
      (bootstrapNew dto usersTable userRolesTable (.ofNat role.id))
      (Ended faults tablePrefix dto configuredToken bootstrapToken first) world := by
  have hcrash : ∀ world', Unchanged first world' → LeftBehind tablePrefix dto first world' :=
    fun world' h => .unchanged h
  rw [bootstrapNew]
  apply wpc_single_bind (Program.single_call _) (hcrash world hfirst)
  apply wp_hashPassword
  intro passwordHash w₁ h₁
  have h := hfirst.trans h₁
  rw [onOk_ok]
  apply wpc_single_bind (Program.single_call _) (hcrash w₁ h)
  apply wp_create_changed h husers
  · exact fun hfaults w₂ h₂ => ⟨hcrash w₂ h₂, ended_of_faults hfaults⟩
  intro user w₂ hcells hchanged
  have hcreates : CreatesUser tablePrefix dto user first w₂ := ⟨⟨passwordHash, hcells⟩, hchanged⟩
  -- from here on a stopped run leaves the user behind
  have hleft : ∀ world', Unchanged w₂ world' → LeftBehind tablePrefix dto first world' :=
    fun world' h => .created hopen hfree hrole hcreates (Or.inl h)
  have huserRoles₂ : resolve tablePrefix w₂.tables SystemTable.userRoles.name =
      some userRolesTable := by
    rw [hchanged.tables, huserRoles]
  rw [onOk_ok]
  apply wpc_bind
  refine ⟨hleft w₂ (Unchanged.refl w₂), ?_⟩
  rw [extractNumericId_flattenRecord, onOk_ok]
  apply wpc_single_bind (Program.single_call _) (hleft w₂ (Unchanged.refl w₂))
  apply wp_create_changed (Unchanged.refl w₂) huserRoles₂
  · exact fun hfaults w₃ h₃ => ⟨hleft w₃ h₃, ended_of_faults hfaults⟩
  intro row w₃ hcells₃ hchanged₃
  have hgives : GivesRole tablePrefix user role w₂ w₃ := ⟨row, hcells₃, hchanged₃⟩
  exact ⟨.created hopen hfree hrole hcreates (Or.inr hgives), hallowed, hopen,
    .created hfree hrole hcreates hgives⟩

/-- The part of `bootstrapAdmin` after the lookups of the user. -/
theorem wpc_bootstrapLookedUp {usersTable rolesTable userRolesTable : TableMeta}
    (hallowed : Allowed tablePrefix first configuredToken bootstrapToken)
    (husername : (filterEqValue (js "username") (.string dto.username)).isOk = true)
    (hemail : (filterEqValue (js "email") (.string dto.email)).isOk = true)
    (husers : resolve tablePrefix first.tables SystemTable.users.name = some usersTable)
    (hroles : resolve tablePrefix first.tables SystemTable.roles.name = some rolesTable)
    (huserRoles : resolve tablePrefix first.tables SystemTable.userRoles.name =
      some userRolesTable)
    (hfirst : Unchanged first world) :
    wpc (nocodb faults).contract (LeftBehind tablePrefix dto first)
      (bootstrapLookedUp dto usersTable rolesTable userRolesTable
        ((namedUser tablePrefix dto first).map (flattenRecord none))
        ((mailedUser tablePrefix dto first).map (flattenRecord none)))
      (Ended faults tablePrefix dto configuredToken bootstrapToken first) world := by
  have hcrash : ∀ world', Unchanged first world' → LeftBehind tablePrefix dto first world' :=
    fun world' h => .unchanged h
  unfold bootstrapLookedUp
  split
  · next htaken =>
      refine ⟨hcrash world hfirst, fun _ hproceeds => ?_⟩
      exact hproceeds.isOpen (Or.inr (Or.inr htaken))
  · next hfree =>
      have hopen : ¬ Blocked tablePrefix dto first := by
        rintro (hnot | hnot | htaken)
        · rw [husername] at hnot
          contradiction
        · rw [hemail] at hnot
          contradiction
        · exact hfree htaken
      obtain ⟨adminFilter, hadmin⟩ : ∃ filter,
          filterEqValue (js "role_name") (.string (js "admin")) = .ok filter := ⟨_, rfl⟩
      apply wpc_bind
      refine ⟨hcrash world hfirst, ?_⟩
      rw [hadmin, onOk_ok]
      apply wpc_findOne hadmin hfirst hcrash
      · exact fun hfaults _ _ => ended_of_faults hfaults
      intro w₁ h₁
      rw [find_eq_lookup hroles (by decide)]
      cases hrole : adminRole tablePrefix first with
      | none =>
          rw [adminRole] at hrole
          rw [hrole]
          refine ⟨hcrash w₁ h₁, fun _ hproceeds => ?_⟩
          have hsome := hproceeds.admin
          rw [adminRole, hrole] at hsome
          contradiction
      | some role =>
          have hlookup := hrole
          rw [adminRole] at hlookup
          rw [hlookup]
          apply wpc_bind
          refine ⟨hcrash w₁ h₁, ?_⟩
          rw [extractNumericId_flattenRecord, onOk_ok]
          cases hnamed : namedUser tablePrefix dto first with
          | none => exact wpc_bootstrapNew hallowed hopen hnamed hrole husers huserRoles h₁
          | some user => exact wpc_bootstrapExisting hallowed hopen hnamed hrole huserRoles h₁

theorem wpc_bootstrapUser {usersTable rolesTable userRolesTable : TableMeta}
    (hallowed : Allowed tablePrefix first configuredToken bootstrapToken)
    (husers : resolve tablePrefix first.tables SystemTable.users.name = some usersTable)
    (hroles : resolve tablePrefix first.tables SystemTable.roles.name = some rolesTable)
    (huserRoles : resolve tablePrefix first.tables SystemTable.userRoles.name =
      some userRolesTable)
    (hfirst : Unchanged first world) :
    wpc (nocodb faults).contract (LeftBehind tablePrefix dto first)
      (bootstrapUser dto usersTable rolesTable userRolesTable)
      (Ended faults tablePrefix dto configuredToken bootstrapToken first) world := by
  have hcrash : ∀ world', Unchanged first world' → LeftBehind tablePrefix dto first world' :=
    fun world' h => .unchanged h
  rw [bootstrapUser]
  apply wpc_bind
  refine ⟨hcrash world hfirst, ?_⟩
  cases husername : filterEqValue (js "username") (.string dto.username) with
  | error exception =>
      intro _ hproceeds
      exact hproceeds.isOpen (Or.inl (by rw [husername]; rfl))
  | ok usernameFilter =>
      rw [onOk_ok]
      apply wpc_findOne husername hfirst hcrash
      · exact fun hfaults _ _ => ended_of_faults hfaults
      intro w₁ h₁
      apply wpc_bind
      refine ⟨hcrash w₁ h₁, ?_⟩
      cases hemail : filterEqValue (js "email") (.string dto.email) with
      | error exception =>
          intro _ hproceeds
          exact hproceeds.isOpen (Or.inr (Or.inl (by rw [hemail]; rfl)))
      | ok emailFilter =>
          rw [onOk_ok]
          apply wpc_findOne hemail h₁ hcrash
          · exact fun hfaults _ _ => ended_of_faults hfaults
          intro w₂ h₂
          rw [find_eq_lookup husers (by decide), find_eq_lookup husers (by decide)]
          exact wpc_bootstrapLookedUp hallowed (by rw [husername]; rfl) (by rw [hemail]; rfl)
            husers hroles huserRoles h₂

/-- A stopped run of `bootstrapAdmin` leaves one of the listed stores behind, and one that
returns was allowed and answers by what it found. -/
theorem wpc_bootstrapAdmin :
    wpc (nocodb faults).contract (LeftBehind tablePrefix dto first)
      (bootstrapAdmin tablePrefix configuredToken dto bootstrapToken)
      (Ended faults tablePrefix dto configuredToken bootstrapToken first) first := by
  have hcrash : ∀ world', Unchanged first world' → LeftBehind tablePrefix dto first world' :=
    fun world' h => .unchanged h
  have hmissing : ∀ {table : SystemTable}, resolve tablePrefix first.tables table.name = none →
      ¬ (resolve tablePrefix first.tables table.name).isSome = true := by
    intro table hnone
    rw [hnone]
    exact Bool.false_ne_true
  rw [bootstrapAdmin]
  apply wpc_bind
  refine ⟨hcrash first (Unchanged.refl first), ?_⟩
  cases htoken : assertBootstrapAllowed configuredToken bootstrapToken with
  | error exception =>
      intro _ hproceeds
      have hok := hproceeds.allowed.token
      rw [htoken] at hok
      contradiction
  | ok _ =>
      rw [onOk_ok]
      apply wpc_requiredTable (Unchanged.refl first) hcrash
      · exact fun _ _ hnone _ hfaults hproceeds =>
          hmissing (hnone hfaults) hproceeds.allowed.users
      intro usersTable w₁ husers h₁
      apply wpc_requiredTable h₁ hcrash
      · exact fun _ _ hnone _ hfaults hproceeds =>
          hmissing (hnone hfaults) hproceeds.allowed.roles
      intro rolesTable w₂ hroles h₂
      apply wpc_requiredTable h₂ hcrash
      · exact fun _ _ hnone _ hfaults hproceeds =>
          hmissing (hnone hfaults) hproceeds.allowed.userRoles
      intro userRolesTable w₃ huserRoles h₃
      have hallowed : Allowed tablePrefix first configuredToken bootstrapToken :=
        ⟨htoken, by rw [husers]; rfl, by rw [hroles]; rfl, by rw [huserRoles]; rfl⟩
      exact wpc_bootstrapUser hallowed husers hroles huserRoles h₃

end

end Auth
end NocoMiddleware
