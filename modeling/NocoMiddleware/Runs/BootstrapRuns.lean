import NocoMiddleware.Auth.StoppedBootstrap
import NocoMiddleware.Runs.KeyUniqueness
import NocoMiddleware.Runs.UserCreationErrors

/-!
# Repeated runs of `bootstrapAdmin`

A deployment runs `bootstrapAdmin` again and again with one dto, and each run may be stopped
anywhere.  The lookups compare with the trimmed username and email, while the new user gets
them as they are in the dto.  Where the two agree every later run finds the user that an
earlier one has left behind, and once a run has returned nothing changes any more.
-/

namespace NocoMiddleware
namespace Runs

open NocoMiddleware.Js NocoMiddleware.Filter NocoMiddleware.Tables NocoMiddleware.Store
open NocoMiddleware.Users NocoMiddleware.Auth NocoMiddleware.Foundation

/-- The text in a field of a row. -/
def textKey (title : JsString) (row : Row) : Option JsString :=
  match row.cell title with
  | .string text => some text
  | _ => none

theorem textKey_eq_some_iff (title : JsString) (row : Row) (text : JsString) :
    textKey title row = some text ↔ row.cell title = .string text := by
  unfold textKey
  split
  · next other hcell => simp [hcell]
  · next hcell =>
      apply iff_of_false (by simp)
      intro h
      exact hcell text h

/-- The field holds a text, or nothing. -/
def HoldsText (title : JsString) (row : Row) : Prop :=
  row.cell title = .undefined ∨ row.cell title = .null ∨ ∃ text, row.cell title = .string text

/-- At most one user for each username and for each email, at most one assignment for each
user and role, and usernames are texts. -/
structure AdminStore (tablePrefix : JsString) (world : World) : Prop where
  usernames : UniqueKeys (textKey (js "username")) (systemRows tablePrefix world .users)
  emails : UniqueKeys (textKey (js "email")) (systemRows tablePrefix world .users)
  assignments : UniqueKeys assignmentKey (systemRows tablePrefix world .userRoles)
  texts : ∀ row ∈ systemRows tablePrefix world .users, HoldsText (js "username") row

/-- If the user has to be created then its email is free: the lookup compares with the email
that is stored, or nobody has the email. -/
def FreeEmail (tablePrefix : JsString) (dto : BootstrapAdminDto) (world : World) : Prop :=
  (∃ user, namedUser tablePrefix dto world = some user) ∨ trim dto.email = dto.email ∨
    ∀ row ∈ systemRows tablePrefix world .users, row.cell (js "email") ≠ .string dto.email

/-- The lookups reject the dto, or they find what a run with the dto has stored. -/
def Resumable (tablePrefix : JsString) (dto : BootstrapAdminDto) (world : World) : Prop :=
  Blocked tablePrefix dto world ∨
    (trim dto.username = dto.username ∧ FreeEmail tablePrefix dto world)

/-- NocoDB gives a new user an id that no assignment links to the admin role. -/
def FreshAdmin (tablePrefix : JsString) (world world' : World) : Prop :=
  ∀ user ∈ systemRows tablePrefix world' .users, user ∉ systemRows tablePrefix world .users →
    ∀ role, adminRole tablePrefix world = some role → ¬ HasRole tablePrefix world user role

/-- What a run that has returned leaves behind: one user with the username, at most one user
for each email, and one assignment of the admin role to the user. -/
structure AdminReady (tablePrefix : JsString) (dto : BootstrapAdminDto) (userId : JsNumber)
    (world : World) : Prop where
  user : ∃ user ∈ systemRows tablePrefix world .users, JsNumber.ofNat user.id = userId ∧
    ∀ other ∈ systemRows tablePrefix world .users,
      other.cell (js "username") = .string dto.username ↔ other = user
  emails : UniqueKeys (textKey (js "email")) (systemRows tablePrefix world .users)
  assignment : ∃ role, adminRole tablePrefix world = some role ∧
    ∃ row ∈ systemRows tablePrefix world .userRoles,
      ∀ other ∈ systemRows tablePrefix world .userRoles,
        IsAssignment userId (.ofNat role.id) other ↔ other = row

/-- A run of a deployment, which may be stopped anywhere. -/
def BootstrapStep (tablePrefix : JsString) (configuredToken : Option JsString)
    (dto : BootstrapAdminDto) (bootstrapToken : Option JsString) (world world' : World) : Prop :=
  Stops (nocodb true).contract (bootstrapAdmin tablePrefix configuredToken dto bootstrapToken)
      world world' ∧
    FreshAdmin tablePrefix world world'

section

variable {tablePrefix : JsString} {dto : BootstrapAdminDto} {world world' : World}

/-! ## Lookups after a change -/

theorem lookup_of_unchanged (h : Unchanged world world') (table : SystemTable)
    (field name : JsString) :
    lookup tablePrefix world' table field name = lookup tablePrefix world table field name := by
  rw [lookup, lookup, h.systemRows_eq]

/-- An inserted row of another name leaves a lookup as it was. -/
theorem lookup_of_insert {table other : SystemTable} {row : Row} {field name : JsString}
    (h : Changed tablePrefix table (.insert row) world world') (hname : ¬ IsNamed field name row) :
    lookup tablePrefix world' other field name = lookup tablePrefix world other field name := by
  rw [lookup, lookup]
  rcases h.applies_or_eq other with heq | ⟨before, after, hbefore, hafter, hfresh, rfl⟩
  · rw [heq]
  · rw [hbefore, hafter, Table.rows_insert, find_concat_of_not hname]

theorem mem_of_lookup {table : SystemTable} {field name : JsString} {row : Row}
    (h : lookup tablePrefix world table field name = some row) :
    row ∈ systemRows tablePrefix world table ∧ row.cell field = .string (trim name) :=
  of_find h

theorem exists_of_mem {table : SystemTable} {field name : JsString} {row : Row}
    (hrow : row ∈ systemRows tablePrefix world table)
    (hname : row.cell field = .string (trim name)) :
    ∃ found, lookup tablePrefix world table field name = some found :=
  find_of_mem hrow hname

/-! ## The rows that a run inserts -/

/-- The row of a new administrator. -/
theorem cells_of_adminUser {user : Row} {passwordHash : JsString}
    (hcells : user.cells = toCells (adminUserData dto passwordHash)) :
    user.cell (js "username") = .string dto.username ∧
      user.cell (js "email") = .string dto.email ∧ user.cell (js "user_id") = .undefined ∧
      user.cell (js "role_name") = .undefined := by
  refine ⟨?_, ?_, ?_, ?_⟩
  · exact (Row.cell_of_cells hcells (by decide)).trans rfl
  · exact (Row.cell_of_cells hcells (by decide)).trans rfl
  · exact (Row.cell_of_cells hcells (by decide)).trans rfl
  · exact (Row.cell_of_cells hcells (by decide)).trans rfl

/-- The row of a new assignment of the admin role. -/
theorem cells_of_adminAssignment {row : Row} {userId roleId : Nat}
    (hcells : row.cells = toCells (adminAssignmentData (.ofNat userId) (.ofNat roleId))) :
    IsAssignment (.ofNat userId) (.ofNat roleId) row ∧
      row.cell (js "username") = .undefined ∧ row.cell (js "email") = .undefined ∧
      row.cell (js "role_name") = .undefined := by
  refine ⟨⟨?_, ?_⟩, ?_, ?_, ?_⟩
  · exact (Row.cell_of_cells hcells (by decide)).trans rfl
  · exact (Row.cell_of_cells hcells (by decide)).trans rfl
  · exact (Row.cell_of_cells hcells (by decide)).trans rfl
  · exact (Row.cell_of_cells hcells (by decide)).trans rfl
  · exact (Row.cell_of_cells hcells (by decide)).trans rfl

theorem not_isNamed_of_undefined {row : Row} {field name : JsString}
    (h : row.cell field = .undefined) : ¬ IsNamed field name row := by
  intro hnamed
  rw [IsNamed, h] at hnamed
  contradiction

theorem LeftBehind.tables (h : LeftBehind tablePrefix dto world world') :
    world'.tables = world.tables := by
  cases h with
  | unchanged h => exact h.tables
  | assigned hopen huser hrole habsent hgives =>
      obtain ⟨row, -, hchanged⟩ := hgives
      exact hchanged.tables
  | created hopen hfree hrole hcreates hrest =>
      obtain ⟨-, hchanged⟩ := hcreates
      rcases hrest with h | ⟨row, -, hchanged'⟩
      · exact h.tables.trans hchanged.tables
      · exact hchanged'.tables.trans hchanged.tables

/-- No run touches the lookup of the admin role. -/
theorem LeftBehind.adminRole (h : LeftBehind tablePrefix dto world world') :
    Auth.adminRole tablePrefix world' = Auth.adminRole tablePrefix world := by
  have hgiven : ∀ {user role : Row} {middle after : World},
      GivesRole tablePrefix user role middle after →
        Auth.adminRole tablePrefix after = Auth.adminRole tablePrefix middle := by
    rintro user role middle after ⟨row, hcells, hchanged⟩
    obtain ⟨-, -, -, hname⟩ := cells_of_adminAssignment hcells
    exact lookup_of_insert hchanged (not_isNamed_of_undefined hname)
  cases h with
  | unchanged h => exact lookup_of_unchanged h _ _ _
  | assigned hopen huser hrole habsent hgives => exact hgiven hgives
  | created hopen hfree hrole hcreates hrest =>
      obtain ⟨⟨passwordHash, hcells⟩, hchanged⟩ := hcreates
      obtain ⟨-, -, -, hname⟩ := cells_of_adminUser hcells
      rename_i middle _ _
      have hmiddle : Auth.adminRole tablePrefix middle = Auth.adminRole tablePrefix world :=
        lookup_of_insert hchanged (not_isNamed_of_undefined hname)
      rcases hrest with h | hgives
      · exact (lookup_of_unchanged h _ _ _).trans hmiddle
      · exact (hgiven hgives).trans hmiddle

/-! ## The store along the runs -/

theorem AdminStore.of_unchanged (h : AdminStore tablePrefix world)
    (hunchanged : Unchanged world world') : AdminStore tablePrefix world' := by
  obtain ⟨husernames, hemails, hassignments, htexts⟩ := h
  constructor
  · rwa [hunchanged.systemRows_eq]
  · rwa [hunchanged.systemRows_eq]
  · rwa [hunchanged.systemRows_eq]
  · rwa [hunchanged.systemRows_eq]

/-- A new row keeps the store in order if its username, its email and its assignment are not
taken. -/
theorem AdminStore.insert {table : SystemTable} {row : Row} (h : AdminStore tablePrefix world)
    (hchanged : Changed tablePrefix table (.insert row) world world')
    (husername : ∀ text, row.cell (js "username") = .string text →
      ∀ other ∈ systemRows tablePrefix world .users, other.cell (js "username") ≠ .string text)
    (hemail : ∀ text, row.cell (js "email") = .string text →
      ∀ other ∈ systemRows tablePrefix world .users, other.cell (js "email") ≠ .string text)
    (hassignment : ∀ userId roleId, IsAssignment userId roleId row →
      ∀ other ∈ systemRows tablePrefix world .userRoles, ¬ IsAssignment userId roleId other)
    (htext : HoldsText (js "username") row) : AdminStore tablePrefix world' := by
  have hrows : ∀ other, systemRows tablePrefix world' other = systemRows tablePrefix world other ∨
      systemRows tablePrefix world' other = systemRows tablePrefix world other ++ [row] := by
    intro other
    rcases hchanged.applies_or_eq other with heq | ⟨before, after, hbefore, hafter, hfresh, rfl⟩
    · exact Or.inl heq
    · right
      rw [hbefore, hafter, Table.rows_insert]
  have hunique : ∀ {κ : Type} {key : Row → Option κ} {other : SystemTable},
      UniqueKeys key (systemRows tablePrefix world other) →
      (∀ k, key row = some k → ∀ old ∈ systemRows tablePrefix world other, key old ≠ some k) →
      UniqueKeys key (systemRows tablePrefix world' other) := by
    intro κ key other hold hfree
    rcases hrows other with heq | heq
    · rwa [heq]
    · rw [heq]
      exact hold.append_singleton hfree
  constructor
  · apply hunique h.usernames
    intro text hkey other hother
    rw [textKey_eq_some_iff] at hkey
    rw [Ne, textKey_eq_some_iff]
    exact husername text hkey other hother
  · apply hunique h.emails
    intro text hkey other hother
    rw [textKey_eq_some_iff] at hkey
    rw [Ne, textKey_eq_some_iff]
    exact hemail text hkey other hother
  · apply hunique h.assignments
    rintro ⟨userId, roleId⟩ hkey other hother
    rw [assignmentKey_eq_some_iff] at hkey
    rw [Ne, assignmentKey_eq_some_iff]
    exact hassignment userId roleId hkey other hother
  · intro other hother
    rcases hchanged.mem_insert hother with hold | rfl
    · exact h.texts other hold
    · exact htext

theorem AdminStore.givesRole {user role : Row} (h : AdminStore tablePrefix world)
    (habsent : ¬ HasRole tablePrefix world user role)
    (hgives : GivesRole tablePrefix user role world world') : AdminStore tablePrefix world' := by
  obtain ⟨row, hcells, hchanged⟩ := hgives
  obtain ⟨hassignment, husername, hemail, -⟩ := cells_of_adminAssignment hcells
  apply h.insert hchanged
  · intro text htext
    rw [husername] at htext
    contradiction
  · intro text htext
    rw [hemail] at htext
    contradiction
  · rintro userId roleId ⟨huser, hrole⟩ other hother ⟨hotherUser, hotherRole⟩
    rw [hassignment.1] at huser
    rw [hassignment.2] at hrole
    exact habsent ⟨other, hother, hotherUser.trans huser.symm, hotherRole.trans hrole.symm⟩
  · exact Or.inl husername

/-- If the name of a new administrator is free and the lookup by email lets the dto pass, then
the email is free. -/
theorem email_free (htexts : ∀ row ∈ systemRows tablePrefix world .users,
      HoldsText (js "username") row)
    (htrim : trim dto.username = dto.username) (hopen : ¬ Blocked tablePrefix dto world)
    (hfree : namedUser tablePrefix dto world = none) (hemail : FreeEmail tablePrefix dto world) :
    ∀ row ∈ systemRows tablePrefix world .users, row.cell (js "email") ≠ .string dto.email := by
  rcases hemail with ⟨user, huser⟩ | htrimEmail | hnobody
  · rw [hfree] at huser
    contradiction
  · intro row hrow hcell
    have hcell' : row.cell (js "email") = .string (trim dto.email) := by
      rw [htrimEmail, hcell]
    obtain ⟨other, hother⟩ : ∃ other, mailedUser tablePrefix dto world = some other :=
      exists_of_mem hrow hcell'
    -- the user with the email has the username of the dto, so the lookup by name had found it
    have hnotTaken : emailTaken dto none (some (flattenRecord none other)) = false := by
      by_contra htaken
      apply hopen
      right; right
      rw [hfree, hother]
      exact Bool.not_eq_false _ ▸ htaken
    have hmem := (mem_of_lookup hother).1
    have hname : ((other.cell (js "username")).orElse (.string [])).toText = dto.username := by
      rw [emailTaken, get_flattenRecord (by decide) (by decide), decide_eq_false_iff_not,
        not_not] at hnotTaken
      exact hnotTaken
    have hempty : dto.username ≠ [] := by
      rintro hempty
      apply hopen
      left
      rw [hempty]
      decide
    rcases htexts other hmem with hnone | hnull | ⟨text, htext⟩
    · rw [hnone] at hname
      exact hempty hname.symm
    · rw [hnull] at hname
      exact hempty hname.symm
    · rw [htext] at hname
      have hnamed : other.cell (js "username") = .string (trim dto.username) := by
        rw [htext, htrim]
        exact congrArg JsValue.string hname
      obtain ⟨user, huser⟩ : ∃ user, namedUser tablePrefix dto world = some user :=
        exists_of_mem hmem hnamed
      rw [hfree] at huser
      contradiction
  · exact hnobody

theorem AdminStore.createsUser {user : Row} (h : AdminStore tablePrefix world)
    (htrim : trim dto.username = dto.username)
    (hfree : namedUser tablePrefix dto world = none)
    (hemail : ∀ row ∈ systemRows tablePrefix world .users,
      row.cell (js "email") ≠ .string dto.email)
    (hcreates : CreatesUser tablePrefix dto user world world') : AdminStore tablePrefix world' := by
  obtain ⟨⟨passwordHash, hcells⟩, hchanged⟩ := hcreates
  obtain ⟨husername, hmail, huserId, -⟩ := cells_of_adminUser hcells
  apply h.insert hchanged
  · intro text htext other hother hcell
    obtain rfl : dto.username = text := JsValue.string.inj (husername.symm.trans htext)
    rw [← htrim] at hcell
    obtain ⟨found, hfound⟩ : ∃ found, namedUser tablePrefix dto world = some found :=
      exists_of_mem hother hcell
    rw [hfree] at hfound
    contradiction
  · intro text htext
    obtain rfl : dto.email = text := JsValue.string.inj (hmail.symm.trans htext)
    exact hemail
  · rintro userId roleId ⟨huser, -⟩
    rw [huserId] at huser
    contradiction
  · exact Or.inr (Or.inr ⟨dto.username, husername⟩)

/-- A stopped run keeps the store in order. -/
theorem AdminStore.leftBehind (h : AdminStore tablePrefix world)
    (htrim : trim dto.username = dto.username) (hemail : FreeEmail tablePrefix dto world)
    (hleft : LeftBehind tablePrefix dto world world')
    (hfresh : FreshAdmin tablePrefix world world') : AdminStore tablePrefix world' := by
  cases hleft with
  | unchanged hunchanged => exact h.of_unchanged hunchanged
  | assigned hopen huser hrole habsent hgives => exact h.givesRole habsent hgives
  | created hopen hfree hrole hcreates hrest =>
      rename_i middle user role
      have hmiddle := h.createsUser htrim hfree (email_free h.texts htrim hopen hfree hemail)
        hcreates
      obtain ⟨⟨passwordHash, hcells⟩, hchanged⟩ := hcreates
      obtain ⟨-, -, huserId, -⟩ := cells_of_adminUser hcells
      obtain ⟨hnew, hmem⟩ := hchanged.inserted_mem
      rcases hrest with hunchanged | hgives
      · exact hmiddle.of_unchanged hunchanged
      · have habsent : ¬ HasRole tablePrefix middle user role := by
          rintro ⟨row, hrow, hassignment⟩
          rcases hchanged.mem_insert hrow with hold | rfl
          · obtain ⟨given, -, hgiven⟩ := hgives
            exact hfresh user (hgiven.mem_of_insert hmem) hnew role hrole
              ⟨row, hold, hassignment⟩
          · rw [hassignment.1] at huserId
            contradiction
        exact hmiddle.givesRole habsent hgives

/-- A user with the name, once it is there, stays the one that the lookup finds. -/
theorem namedUser_of_leftBehind {user : Row} (huser : namedUser tablePrefix dto world = some user)
    (hleft : LeftBehind tablePrefix dto world world') :
    namedUser tablePrefix dto world' = some user := by
  cases hleft with
  | unchanged hunchanged => exact (lookup_of_unchanged hunchanged _ _ _).trans huser
  | assigned hopen _ hrole habsent hgives =>
      obtain ⟨row, hcells, hchanged⟩ := hgives
      obtain ⟨-, hname, -, -⟩ := cells_of_adminAssignment hcells
      exact (lookup_of_insert hchanged (not_isNamed_of_undefined hname)).trans huser
  | created hopen hfree hrole hcreates hrest =>
      rw [hfree] at huser
      contradiction

/-- A stopped run leaves the email free, or the user behind. -/
theorem FreeEmail.leftBehind (htrim : trim dto.username = dto.username)
    (h : FreeEmail tablePrefix dto world) (hleft : LeftBehind tablePrefix dto world world') :
    FreeEmail tablePrefix dto world' := by
  rcases h with ⟨user, huser⟩ | htrimEmail | hnobody
  · exact Or.inl ⟨user, namedUser_of_leftBehind huser hleft⟩
  · exact Or.inr (Or.inl htrimEmail)
  · cases hleft with
    | unchanged hunchanged =>
        right; right
        rwa [hunchanged.systemRows_eq]
    | assigned hopen huser hrole habsent hgives =>
        have hleft' := LeftBehind.assigned hopen huser hrole habsent hgives
        exact Or.inl ⟨_, namedUser_of_leftBehind huser hleft'⟩
    | created hopen hfree hrole hcreates hrest =>
        rename_i middle user role
        obtain ⟨⟨passwordHash, hcells⟩, hchanged⟩ := hcreates
        obtain ⟨husername, -, -, -⟩ := cells_of_adminUser hcells
        rw [← htrim] at husername
        have hmem := hchanged.inserted_mem.2
        have hmem' : user ∈ systemRows tablePrefix world' .users := by
          rcases hrest with hunchanged | ⟨row, -, hgiven⟩
          · rwa [hunchanged.systemRows_eq]
          · exact hgiven.mem_of_insert hmem
        exact Or.inl (exists_of_mem hmem' husername)

theorem blocked_of_unchanged (hunchanged : Unchanged world world')
    (h : Blocked tablePrefix dto world) : Blocked tablePrefix dto world' := by
  rw [Blocked, namedUser, mailedUser, lookup_of_unchanged hunchanged,
    lookup_of_unchanged hunchanged]
  exact h

/-- A run whose lookups reject the dto leaves the store alone. -/
theorem unchanged_of_blocked (h : Blocked tablePrefix dto world)
    (hleft : LeftBehind tablePrefix dto world world') : Unchanged world world' := by
  cases hleft with
  | unchanged hunchanged => exact hunchanged
  | assigned hopen => contradiction
  | created hopen => contradiction

/-- A run, stopped or not, leaves a store behind that the next run can resume. -/
theorem resumable_of_leftBehind (hstore : AdminStore tablePrefix world)
    (h : Resumable tablePrefix dto world) (hleft : LeftBehind tablePrefix dto world world')
    (hfresh : FreshAdmin tablePrefix world world') :
    AdminStore tablePrefix world' ∧ Resumable tablePrefix dto world' := by
  rcases h with hblocked | ⟨htrim, hemail⟩
  · have hunchanged := unchanged_of_blocked hblocked hleft
    exact ⟨hstore.of_unchanged hunchanged, Or.inl (blocked_of_unchanged hunchanged hblocked)⟩
  · exact ⟨hstore.leftBehind htrim hemail hleft hfresh,
      Or.inr ⟨htrim, hemail.leftBehind htrim hleft⟩⟩

/-! ## Runs that return -/

theorem Answered.leftBehind {answer : BootstrappedAdmin} (hopen : ¬ Blocked tablePrefix dto world)
    (h : Answered tablePrefix dto world answer world') :
    LeftBehind tablePrefix dto world world' := by
  cases h with
  | known huser hrole hhas hunchanged => exact .unchanged hunchanged
  | assigned huser hrole habsent hgives => exact .assigned hopen huser hrole habsent hgives
  | created hfree hrole hcreates hgives =>
      exact .created hopen hfree hrole hcreates (Or.inr hgives)

theorem hasRole_of_gives {user role : Row} (h : GivesRole tablePrefix user role world world') :
    HasRole tablePrefix world' user role := by
  obtain ⟨row, hcells, hchanged⟩ := h
  exact ⟨row, hchanged.inserted_mem.2, (cells_of_adminAssignment hcells).1⟩

/-- The user that a run answers with is found by its name and has the admin role. -/
theorem found_of_answered {answer : BootstrappedAdmin} (htrim : trim dto.username = dto.username)
    (h : Answered tablePrefix dto world answer world') :
    ∃ user ∈ systemRows tablePrefix world' .users, JsNumber.ofNat user.id = answer.userId ∧
      user.cell (js "username") = .string dto.username ∧
      ∃ role, adminRole tablePrefix world = some role ∧ HasRole tablePrefix world' user role := by
  cases h with
  | known huser hrole hhas hunchanged =>
      obtain ⟨hmem, hname⟩ := mem_of_lookup huser
      rw [htrim] at hname
      obtain ⟨row, hrow, hassignment⟩ := hhas
      refine ⟨_, ?_, rfl, hname, _, hrole, row, ?_, hassignment⟩
      · rwa [hunchanged.systemRows_eq]
      · rwa [hunchanged.systemRows_eq]
  | assigned huser hrole habsent hgives =>
      obtain ⟨hmem, hname⟩ := mem_of_lookup huser
      rw [htrim] at hname
      have hhas := hasRole_of_gives hgives
      obtain ⟨row, -, hchanged⟩ := hgives
      exact ⟨_, hchanged.mem_of_insert hmem, rfl, hname, _, hrole, hhas⟩
  | created hfree hrole hcreates hgives =>
      obtain ⟨⟨passwordHash, hcells⟩, hcreated⟩ := hcreates
      have hhas := hasRole_of_gives hgives
      obtain ⟨row, -, hchanged⟩ := hgives
      exact ⟨_, hchanged.mem_of_insert hcreated.inserted_mem.2, rfl,
        (cells_of_adminUser hcells).1, _, hrole, hhas⟩

theorem adminReady_of_found {user role : Row} (hstore : AdminStore tablePrefix world)
    (hmem : user ∈ systemRows tablePrefix world .users)
    (hname : user.cell (js "username") = .string dto.username)
    (hrole : adminRole tablePrefix world = some role)
    (hhas : HasRole tablePrefix world user role) :
    AdminReady tablePrefix dto (.ofNat user.id) world := by
  obtain ⟨row, hrow, hassignment⟩ := hhas
  refine ⟨⟨user, hmem, rfl, ?_⟩, hstore.emails, role, hrole, row, hrow, ?_⟩
  · intro other hother
    constructor
    · intro hotherName
      rw [← textKey_eq_some_iff] at hname hotherName
      exact hstore.usernames _ other hother user hmem hotherName hname
    · rintro rfl
      exact hname
  · intro other hother
    constructor
    · intro hotherAssignment
      rw [← assignmentKey_eq_some_iff] at hassignment hotherAssignment
      exact hstore.assignments _ other hother row hrow hotherAssignment hassignment
    · rintro rfl
      exact hassignment

/-- A run that returns leaves the administrator behind. -/
theorem adminReady_of_answered {answer : BootstrappedAdmin}
    (hstore : AdminStore tablePrefix world) (htrim : trim dto.username = dto.username)
    (hemail : FreeEmail tablePrefix dto world) (hopen : ¬ Blocked tablePrefix dto world)
    (h : Answered tablePrefix dto world answer world')
    (hfresh : FreshAdmin tablePrefix world world') :
    AdminReady tablePrefix dto answer.userId world' := by
  have hleft := Answered.leftBehind hopen h
  obtain ⟨user, hmem, hid, hname, role, hrole, hhas⟩ := found_of_answered htrim h
  rw [← hid]
  apply adminReady_of_found (hstore.leftBehind htrim hemail hleft hfresh) hmem hname _ hhas
  exact (LeftBehind.adminRole hleft).trans hrole

/-! ## Runs after one that has returned -/

theorem AdminReady.of_unchanged {userId : JsNumber} (h : AdminReady tablePrefix dto userId world)
    (hunchanged : Unchanged world world') : AdminReady tablePrefix dto userId world' := by
  obtain ⟨huser, hemails, role, hrole, hassignment⟩ := h
  constructor
  · rwa [hunchanged.systemRows_eq]
  · rwa [hunchanged.systemRows_eq]
  · refine ⟨role, ?_, ?_⟩
    · exact (lookup_of_unchanged hunchanged _ _ _).trans hrole
    · rwa [hunchanged.systemRows_eq]

/-- The lookups find the administrator, the role and the assignment. -/
theorem AdminReady.found {userId : JsNumber} (h : AdminReady tablePrefix dto userId world)
    (htrim : trim dto.username = dto.username) :
    ∃ user role, namedUser tablePrefix dto world = some user ∧
      JsNumber.ofNat user.id = userId ∧ adminRole tablePrefix world = some role ∧
      HasRole tablePrefix world user role := by
  obtain ⟨⟨user, hmem, hid, honly⟩, -, role, hrole, row, hrow, hassignment⟩ := h
  have hname : user.cell (js "username") = .string (trim dto.username) := by
    rw [htrim]
    exact (honly user hmem).mpr rfl
  obtain ⟨found, hfound⟩ : ∃ found, namedUser tablePrefix dto world = some found :=
    exists_of_mem hmem hname
  obtain ⟨hfoundMem, hfoundName⟩ := mem_of_lookup hfound
  rw [htrim] at hfoundName
  obtain rfl : found = user := (honly found hfoundMem).mp hfoundName
  refine ⟨found, role, hfound, hid, hrole, row, hrow, ?_⟩
  rw [hid]
  exact (hassignment row hrow).mpr rfl

/-- No further run changes the store, wherever it is stopped. -/
theorem AdminReady.unchanged {userId : JsNumber} (h : AdminReady tablePrefix dto userId world)
    (htrim : trim dto.username = dto.username)
    (hleft : LeftBehind tablePrefix dto world world') : Unchanged world world' := by
  obtain ⟨user, role, huser, -, hrole, hhas⟩ := h.found htrim
  cases hleft with
  | unchanged hunchanged => exact hunchanged
  | assigned hopen huser' hrole' habsent hgives =>
      rw [huser] at huser'
      rw [hrole] at hrole'
      cases huser'
      cases hrole'
      contradiction
  | created hopen hfree hrole' hcreates hrest =>
      rw [huser] at hfree
      contradiction

/-- Every further run that returns answers with the administrator. -/
theorem AdminReady.answer {userId : JsNumber} {answer : BootstrappedAdmin}
    (h : AdminReady tablePrefix dto userId world) (htrim : trim dto.username = dto.username)
    (hanswered : Answered tablePrefix dto world answer world') :
    answer = ⟨true, userId, dto.username, false⟩ := by
  obtain ⟨user, role, huser, hid, hrole, hhas⟩ := h.found htrim
  cases hanswered with
  | known huser' hrole' hhas' hunchanged =>
      rw [huser] at huser'
      cases huser'
      rw [hid]
  | assigned huser' hrole' habsent hgives =>
      rw [huser] at huser'
      rw [hrole] at hrole'
      cases huser'
      cases hrole'
      contradiction
  | created hfree hrole' hcreates hgives =>
      rw [huser] at hfree
      contradiction

/-- A further run returns unless a request fails. -/
theorem AdminReady.proceeds {userId : JsNumber} {configuredToken bootstrapToken : Option JsString}
    (h : AdminReady tablePrefix dto userId world) (htrim : trim dto.username = dto.username)
    (hallowed : Allowed tablePrefix world configuredToken bootstrapToken)
    (husername : (filterEqValue (js "username") (.string dto.username)).isOk = true)
    (hemail : (filterEqValue (js "email") (.string dto.email)).isOk = true)
    (hplain : PlainIds tablePrefix world) :
    Proceeds tablePrefix dto configuredToken bootstrapToken world := by
  obtain ⟨user, role, huser, -, hrole, -⟩ := h.found htrim
  refine ⟨hallowed, ?_, ?_, ?_⟩
  · rintro (hnot | hnot | htaken)
    · rw [husername] at hnot
      contradiction
    · rw [hemail] at hnot
      contradiction
    · rw [huser] at htaken
      contradiction
  · rw [hrole]
    rfl
  · intro user' role' huser' hrole'
    exact ⟨hplain .users user' (mem_of_lookup huser').1,
      hplain .roles role' (mem_of_lookup hrole').1⟩

theorem allowed_of_tables {configuredToken bootstrapToken : Option JsString}
    (h : Allowed tablePrefix world configuredToken bootstrapToken)
    (htables : world'.tables = world.tables) :
    Allowed tablePrefix world' configuredToken bootstrapToken := by
  obtain ⟨htoken, husers, hroles, huserRoles⟩ := h
  constructor
  · exact htoken
  · rwa [htables]
  · rwa [htables]
  · rwa [htables]

theorem plainIds_of_unchanged (h : PlainIds tablePrefix world)
    (hunchanged : Unchanged world world') : PlainIds tablePrefix world' := by
  intro table row hrow
  rw [hunchanged.systemRows_eq] at hrow
  exact h table row hrow

/-! ## Runs of a deployment -/

variable {configuredToken bootstrapToken : Option JsString}

theorem resumable_of_run (hstore : AdminStore tablePrefix world)
    (h : Resumable tablePrefix dto world)
    (hrun : Relation.ReflTransGen (BootstrapStep tablePrefix configuredToken dto bootstrapToken)
      world world') : AdminStore tablePrefix world' ∧ Resumable tablePrefix dto world' := by
  induction hrun with
  | refl => exact ⟨hstore, h⟩
  | tail _ hstep ih =>
      obtain ⟨hstops, hfresh⟩ := hstep
      exact resumable_of_leftBehind ih.1 ih.2 (wpc_stops wpc_bootstrapAdmin hstops) hfresh

theorem unchanged_of_run {userId : JsNumber} (h : AdminReady tablePrefix dto userId world)
    (htrim : trim dto.username = dto.username)
    (hrun : Relation.ReflTransGen (Stops (nocodb true).contract
      (bootstrapAdmin tablePrefix configuredToken dto bootstrapToken)) world world') :
    Unchanged world world' := by
  induction hrun with
  | refl => exact Unchanged.refl world
  | tail _ hstops ih =>
      have hready := h.of_unchanged ih
      exact ih.trans (hready.unchanged htrim (wpc_stops wpc_bootstrapAdmin hstops))

/-- Once a run has returned, after any runs before it that were stopped anywhere, no further
run changes the store, wherever it is stopped; each that returns answers with the same user
and `created = false`, and it returns unless a request fails. -/
theorem bootstrap_resumable {first before after : World} {answer : BootstrappedAdmin}
    (hstore : AdminStore tablePrefix first) (hresumable : Resumable tablePrefix dto first)
    (hstarts : Relation.ReflTransGen
      (BootstrapStep tablePrefix configuredToken dto bootstrapToken) first before)
    (hcompletes : Exec (nocodb true).contract
      (bootstrapAdmin tablePrefix configuredToken dto bootstrapToken) before (.ok answer) after)
    (hfresh : FreshAdmin tablePrefix before after) (hplain : PlainIds tablePrefix after)
    (hfurther : Relation.ReflTransGen (Stops (nocodb true).contract
      (bootstrapAdmin tablePrefix configuredToken dto bootstrapToken)) after world) :
    Unchanged after world ∧ AdminReady tablePrefix dto answer.userId world ∧
      (∀ again world', Exec (nocodb true).contract
          (bootstrapAdmin tablePrefix configuredToken dto bootstrapToken) world (.ok again)
          world' → again = ⟨true, answer.userId, dto.username, false⟩) ∧
      ∀ result world', Exec (nocodb false).contract
          (bootstrapAdmin tablePrefix configuredToken dto bootstrapToken) world result world' →
        result.isOk = true := by
  obtain ⟨hbefore, hresumes⟩ := resumable_of_run hstore hresumable hstarts
  obtain ⟨hallowed, hopen, hanswered⟩ := wpc_sound wpc_bootstrapAdmin hcompletes
  obtain ⟨htrim, hemail⟩ := hresumes.resolve_left hopen
  have hready := adminReady_of_answered hbefore htrim hemail hopen hanswered hfresh
  have hunchanged := unchanged_of_run hready htrim hfurther
  have hready' := hready.of_unchanged hunchanged
  refine ⟨hunchanged, hready', ?_, ?_⟩
  · intro again world' hagain
    obtain ⟨-, -, hanswered'⟩ := wpc_sound wpc_bootstrapAdmin hagain
    exact hready'.answer htrim hanswered'
  · intro result world' hexec
    have hend := wpc_sound wpc_bootstrapAdmin hexec
    cases result with
    | ok again => rfl
    | error exception =>
        have htables : world.tables = before.tables :=
          hunchanged.tables.trans (LeftBehind.tables (Answered.leftBehind hopen hanswered))
        have hblocked := fun h => hopen (Or.inl h)
        have hproceeds := hready'.proceeds htrim (allowed_of_tables hallowed htables)
          (Bool.not_eq_false _ ▸ hblocked)
          (Bool.not_eq_false _ ▸ fun h => hopen (Or.inr (Or.inl h)))
          (plainIds_of_unchanged hplain hunchanged)
        exact absurd hproceeds (hend rfl)

end

/-- A request to bootstrap `alice` under a given username. -/
def rootDto (username : JsString) : BootstrapAdminDto :=
  ⟨username, js "alice@example.com", js "Secret#2345678"⟩

/-- The run for the request, with the configured token. -/
def bootstrapRoot (username : JsString) : Service BootstrappedAdmin :=
  bootstrapAdmin [] (some (js "token")) (rootDto username) (some (js "token"))

/-- The store after the request for the assignment has failed. -/
def stoppedWorld : World :=
  settle true (bootstrapRoot (js "alice")) (prompt 8 ++ [⟨true, 9, [], 0⟩]) seededWorld

/-- The store after the next run. -/
def resumedWorld : World :=
  settle true (bootstrapRoot (js "alice")) (prompt 8) stoppedWorld

/-- No user is there before the first run. -/
theorem adminStore_seededWorld : AdminStore [] seededWorld := by
  have husers : systemRows [] seededWorld .users = [] := by decide
  have huserRoles : systemRows [] seededWorld .userRoles = [] := by decide
  constructor
  · rw [husers]
    intro key row hrow
    contradiction
  · rw [husers]
    intro key row hrow
    contradiction
  · rw [huserRoles]
    intro key row hrow
    contradiction
  · rw [husers]
    intro row hrow
    contradiction

theorem bootstrap_resumable_alice :
    Unchanged resumedWorld resumedWorld ∧
      AdminReady [] (rootDto (js "alice")) (.ofNat 9) resumedWorld ∧
      (∀ again world', Exec (nocodb true).contract (bootstrapRoot (js "alice")) resumedWorld
        (.ok again) world' → again = ⟨true, .ofNat 9, js "alice", false⟩) ∧
      ∀ result world', Exec (nocodb false).contract (bootstrapRoot (js "alice")) resumedWorld
        result world' → result.isOk = true := by
  obtain ⟨_, hstopped, -⟩ : Completes true (bootstrapRoot (js "alice")) seededWorld false
      stoppedWorld := completes_of_run (by decide)
  have hresumed : Exec (nocodb true).contract (bootstrapRoot (js "alice")) stoppedWorld
      (.ok ⟨true, .ofNat 9, js "alice", false⟩) resumedWorld := exec_of_settle (by decide)
  have hfirst : FreshAdmin [] seededWorld stoppedWorld := by
    have huserRoles : systemRows [] seededWorld .userRoles = [] := by decide
    rintro user - - role - ⟨row, hrow, -⟩
    rw [huserRoles] at hrow
    contradiction
  have hsecond : FreshAdmin [] stoppedWorld resumedWorld := by
    have huserRoles : systemRows [] stoppedWorld .userRoles = [] := by decide
    rintro user - - role - ⟨row, hrow, -⟩
    rw [huserRoles] at hrow
    contradiction
  have hplain : ∀ table ∈ SystemTable.all, ∀ row ∈ systemRows [] resumedWorld table,
      row.id < 10 ^ 21 := by
    decide
  exact bootstrap_resumable adminStore_seededWorld (Or.inr ⟨by decide, Or.inr (Or.inl (by decide))⟩)
    (.single ⟨hstopped.stops, hfirst⟩) hresumed hsecond
    (fun table => hplain table (SystemTable.mem_all table)) .refl

/-- The store after the first of two runs with a space before the username. -/
def paddedWorld : World :=
  settle true (bootstrapRoot (js " alice")) (prompt 9) seededWorld

/-- The store after the second. -/
def doubledWorld : World :=
  settle true (bootstrapRoot (js " alice")) (List.replicate 9 ⟨false, 10, [], 0⟩) paddedWorld

/-- The lookups compare with `alice`, so each run with a space before the username creates
one more administrator. -/
theorem padded_username_bootstrapped_twice :
    AdminStore [] seededWorld ∧ (adminRole [] seededWorld).isSome = true ∧
      Exec (nocodb true).contract (bootstrapRoot (js " alice")) seededWorld
        (.ok ⟨true, .ofNat 9, js " alice", true⟩) paddedWorld ∧
      Exec (nocodb true).contract (bootstrapRoot (js " alice")) paddedWorld
        (.ok ⟨true, .ofNat 10, js " alice", true⟩) doubledWorld ∧
      ∃ first ∈ systemRows [] doubledWorld .users, ∃ second ∈ systemRows [] doubledWorld .users,
        first ≠ second ∧ first.cell (js "username") = second.cell (js "username") ∧
        first.cell (js "email") = second.cell (js "email") := by
  refine ⟨adminStore_seededWorld, by decide, exec_of_settle (by decide),
    exec_of_settle (by decide), ?_⟩
  decide

end Runs
end NocoMiddleware
