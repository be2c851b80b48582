import NocoMiddleware.Runs.SystemRoles

/-!
# What a rejected `createLocalUser` leaves behind

`createLocalUser` writes the user before it looks at the names of the roles.  Where no
request fails, a rejected call has left the accounts alone exactly if it was rejected
before the creation; so the call is all or nothing exactly if every role name can be
looked up and the tables of roles and assignments are there.
-/

namespace NocoMiddleware
namespace Runs

open NocoMiddleware.Js NocoMiddleware.Filter NocoMiddleware.Tables NocoMiddleware.Store
open NocoMiddleware.Users NocoMiddleware.Auth NocoMiddleware.Foundation

/-- The keys of all system rows are written without an exponent. -/
def PlainIds (tablePrefix : JsString) (world : World) : Prop :=
  ∀ table, ∀ row ∈ systemRows tablePrefix world table, row.id < 10 ^ 21

/-- The filter builder accepts the name: trimmed it is not empty, and it holds no quotation
mark and no control character. -/
def AcceptsName (roleName : JsString) : Prop :=
  (filterEqValue (js "role_name") (.string roleName)).isOk = true

/-- `createLocalUser` gets to the creation of the user: the name and the email can be looked
up, and nobody has them. -/
structure GetsToCreation (tablePrefix : JsString) (world : World) (dto : ProvisionUserDto) :
    Prop where
  table : (resolve tablePrefix world.tables SystemTable.users.name).isSome = true
  username : (filterEqValue (js "username") (.string dto.username)).isOk = true
  freeUsername : ∀ row ∈ systemRows tablePrefix world .users,
    row.cell (js "username") ≠ .string (trim dto.username)
  email : (filterEqValue (js "email") (.string dto.email)).isOk = true
  freeEmail : ∀ row ∈ systemRows tablePrefix world .users,
    row.cell (js "email") ≠ .string (trim dto.email)

/-- The tables of roles and of assignments are there, and all names are accepted. -/
structure AcceptsNames (tablePrefix : JsString) (world : World) (roleNames : List JsString) :
    Prop where
  roles : (resolve tablePrefix world.tables SystemTable.roles.name).isSome = true
  userRoles : (resolve tablePrefix world.tables SystemTable.userRoles.name).isSome = true
  names : ∀ roleName ∈ roleNames, AcceptsName roleName

/-- The dto asks for no roles, or all of them can be looked up. -/
def AcceptsRoles (tablePrefix : JsString) (world : World) (dto : ProvisionUserDto) : Prop :=
  ∀ roleNames, dto.roles = some roleNames → roleNames ≠ [] →
    AcceptsNames tablePrefix world roleNames

/-- The accounts and their assignments are as before. -/
def KeepsAccounts (tablePrefix : JsString) (world world' : World) : Prop :=
  systemRows tablePrefix world' .users = systemRows tablePrefix world .users ∧
    systemRows tablePrefix world' .userRoles = systemRows tablePrefix world .userRoles

/-- No row of a system table is gone. -/
def Grows (tablePrefix : JsString) (world world' : World) : Prop :=
  ∀ table, ∀ row ∈ systemRows tablePrefix world table, row ∈ systemRows tablePrefix world' table

/-- A part of the call keeps all rows, and with plain keys it succeeds exactly if what it is
given is accepted. -/
structure Tried {α : Type} (tablePrefix : JsString) (world : World) (accepted : Prop)
    (result : Except Exception α) (world' : World) : Prop where
  tables : world'.tables = world.tables
  grows : Grows tablePrefix world world'
  accepts : PlainIds tablePrefix world' → (result.isOk = true ↔ accepted)

section

variable {tablePrefix : JsString}

theorem Grows.trans {first second third : World} (h : Grows tablePrefix first second)
    (h' : Grows tablePrefix second third) : Grows tablePrefix first third :=
  fun table row hrow => h' table row (h table row hrow)

theorem Grows.of_unchanged {world world' : World} (h : Unchanged world world') :
    Grows tablePrefix world world' := by
  intro table row hrow
  rwa [h.systemRows_eq]

theorem PlainIds.of_grows {world world' : World} (h : PlainIds tablePrefix world')
    (hgrows : Grows tablePrefix world world') : PlainIds tablePrefix world :=
  fun table row hrow => h table row (hgrows table row hrow)

/-! ## One role name -/

theorem tried_of_unchanged {α : Type} {world world' : World} {accepted : Prop}
    {result : Except Exception α} (h : Unchanged world world')
    (haccepts : result.isOk = true ↔ accepted) :
    Tried tablePrefix world accepted result world' where
  tables := h.tables
  grows := .of_unchanged h
  accepts _ := haccepts

/-- One round of `assignRolesByName` fails exactly if the name is not accepted. -/
theorem wp_assignRoleByName_tried {world : World} {rolesTable userRolesTable : TableMeta}
    {user : Row} {roleName : JsString}
    (hroles : resolve tablePrefix world.tables SystemTable.roles.name = some rolesTable)
    (huserRoles : resolve tablePrefix world.tables SystemTable.userRoles.name =
      some userRolesTable)
    (huser : user ∈ systemRows tablePrefix world .users) :
    wp (nocodb false).contract
      (assignRoleByName rolesTable userRolesTable (.ofNat user.id) roleName)
      (Tried tablePrefix world (AcceptsName roleName)) world := by
  rw [assignRoleByName, wp_bind, wp_ofExcept]
  cases hroleFilter : filterEqValue (js "role_name") (.string roleName) with
  | error exception =>
      have hrejects : ¬ AcceptsName roleName := by
        rw [AcceptsName, hroleFilter]
        exact Bool.false_ne_true
      exact tried_of_unchanged (Unchanged.refl world) (iff_of_false Bool.false_ne_true hrejects)
  | ok roleFilter =>
      have haccepts : AcceptsName roleName := by
        rw [AcceptsName, hroleFilter]
        rfl
      have hdone : ∀ world', Unchanged world world' →
          Tried tablePrefix world (AcceptsName roleName) (.ok PUnit.unit) world' :=
        fun world' h => tried_of_unchanged h (iff_of_true rfl haccepts)
      rw [onOk_ok, wp_bind]
      refine wp_findOne (selectRows_filterEqValue hroleFilter) (fun _ => Iff.rfl)
        (fun hfaults => by contradiction) (fun _ w₁ h₁ => hdone w₁ h₁) ?_
      intro role hrole _ w₁ h₁
      simp only [onOk_ok]
      split
      · exact hdone w₁ h₁
      · simp only [wp_bind, wp_ofExcept, extractNumericId_flattenRecord, onOk_ok]
        cases hfilter : filterBoth (js "user_id") (.number (.ofNat user.id)) (js "role_id")
            (.number (.ofNat role.id)) with
        | error exception =>
            refine ⟨h₁.tables, .of_unchanged h₁, fun hplain => ?_⟩
            -- both keys are plain, so the filter could be built
            have hplain₀ := hplain.of_grows (.of_unchanged h₁)
            have hroleId : role.id < 10 ^ 21 :=
              hplain₀ .roles role (by rwa [systemRows_eq hroles])
            obtain ⟨filter, hok⟩ := (filterBoth_assignment_iff user.id role.id).mpr
              ⟨hplain₀ .users user huser, hroleId⟩
            rw [hfilter] at hok
            contradiction
        | ok filter =>
            rw [onOk_ok, wp_bind]
            refine wp_findOne (selectRows_filterBoth hfilter) (satisfies_isAssignment _ _)
              (fun hfaults => by contradiction) ?_ (fun _ _ _ w₂ h₂ => hdone w₂ (h₁.trans h₂))
            intro _ w₂ h₂
            rw [onOk_ok, wp_bind]
            refine wp_newDate fun assignedAt w₃ h₃ => ?_
            have h := (h₁.trans h₂).trans h₃
            rw [onOk_ok, wp_bind]
            refine wp_create_changed h huserRoles (fun hfaults => by contradiction) ?_
            intro row w₄ _ hchanged
            have hgrows : Grows tablePrefix world w₄ :=
              fun table old hold => hchanged.mem_of_insert hold
            exact ⟨hchanged.tables, hgrows, fun _ => iff_of_true rfl haccepts⟩

/-! ## All role names -/

/-- `assignRolesByName` fails exactly if a table is missing or a name is not accepted, at
whatever place in the list. -/
theorem wp_assignRolesByName_tried {world : World} {user : Row} {roleNames : List JsString}
    (huser : user ∈ systemRows tablePrefix world .users) :
    wp (nocodb false).contract (assignRolesByName tablePrefix (.ofNat user.id) roleNames)
      (Tried tablePrefix world (AcceptsNames tablePrefix world roleNames)) world := by
  have hmissing : ∀ {table : SystemTable}, resolve tablePrefix world.tables table.name = none →
      ¬ (resolve tablePrefix world.tables table.name).isSome = true := by
    intro table hnone
    rw [hnone]
    exact Bool.false_ne_true
  rw [assignRolesByName]
  refine wp_requiredTable_faultless (Unchanged.refl world) ?_ ?_
  · intro hnone exception w₁ h₁
    exact tried_of_unchanged h₁ (iff_of_false Bool.false_ne_true fun h => hmissing hnone h.roles)
  intro rolesTable w₁ hroles h₁
  refine wp_requiredTable_faultless h₁ ?_ ?_
  · intro hnone exception w₂ h₂
    exact tried_of_unchanged h₂
      (iff_of_false Bool.false_ne_true fun h => hmissing hnone h.userRoles)
  intro userRolesTable w₂ huserRoles h₂
  have hiff : AcceptsNames tablePrefix world roleNames ↔
      ∀ roleName ∈ roleNames, AcceptsName roleName := by
    constructor
    · exact fun h => h.names
    · exact fun h => ⟨by rw [hroles]; rfl, by rw [huserRoles]; rfl, h⟩
  -- with plain keys, the names that are done were accepted
  refine wp_forM
    (fun remaining world' => world'.tables = world.tables ∧ Grows tablePrefix world world' ∧
      (PlainIds tablePrefix world' → ((∀ roleName ∈ roleNames, AcceptsName roleName) ↔
        ∀ roleName ∈ remaining, AcceptsName roleName))) ?_ ?_
    ⟨h₂.tables, .of_unchanged h₂, fun _ => Iff.rfl⟩
  · rintro roleName remaining w₃ ⟨htables, hgrows, hdone⟩
    have hroles₃ : resolve tablePrefix w₃.tables SystemTable.roles.name = some rolesTable := by
      rw [htables, hroles]
    have huserRoles₃ : resolve tablePrefix w₃.tables SystemTable.userRoles.name =
        some userRolesTable := by
      rw [htables, huserRoles]
    refine wp_mono (wp_assignRoleByName_tried hroles₃ huserRoles₃ (hgrows .users user huser)) ?_
    intro result w₄ htried
    have hgrows₄ := hgrows.trans htried.grows
    have hremaining : PlainIds tablePrefix w₄ →
        ((∀ roleName ∈ roleNames, AcceptsName roleName) ↔
          AcceptsName roleName ∧ ∀ roleName ∈ remaining, AcceptsName roleName) := by
      intro hplain
      rw [hdone (hplain.of_grows htried.grows), List.forall_mem_cons]
    cases result with
    | ok _ =>
        refine ⟨htried.tables.trans htables, hgrows₄, fun hplain => ?_⟩
        rw [hremaining hplain, and_iff_right ((htried.accepts hplain).mp rfl)]
    | error exception =>
        refine ⟨htried.tables.trans htables, hgrows₄, fun hplain => ?_⟩
        apply iff_of_false Bool.false_ne_true
        rw [hiff, hremaining hplain]
        rintro ⟨haccepted, -⟩
        exact Bool.false_ne_true ((htried.accepts hplain).mpr haccepted)
  · rintro w₃ ⟨htables, hgrows, hdone⟩
    refine ⟨htables, hgrows, fun hplain => ?_⟩
    apply iff_of_true rfl
    rw [hiff, hdone hplain]
    exact List.forall_mem_nil _

/-! ## The call -/

/-- How `createLocalUser` ends where no request fails: it is rejected before the creation
and changes nothing, or it creates the user and then fails exactly if the roles are not
accepted. -/
def CreationOutcome (tablePrefix : JsString) (dto : ProvisionUserDto) (world : World)
    (result : Except Exception ResolvedIdentity) (world' : World) : Prop :=
  (¬ GetsToCreation tablePrefix world dto ∧ result.isOk = false ∧ Unchanged world world') ∨
    (GetsToCreation tablePrefix world dto ∧
      (∃ user ∈ systemRows tablePrefix world' .users, user ∉ systemRows tablePrefix world .users) ∧
      (PlainIds tablePrefix world' →
        (result.isOk = true ↔ AcceptsRoles tablePrefix world dto)))

theorem acceptsNames_of_tables {world world' : World} {roleNames : List JsString}
    (htables : world'.tables = world.tables) :
    AcceptsNames tablePrefix world' roleNames ↔ AcceptsNames tablePrefix world roleNames := by
  constructor
  · rintro ⟨hroles, huserRoles, hnames⟩
    rw [htables] at hroles huserRoles
    exact ⟨hroles, huserRoles, hnames⟩
  · rintro ⟨hroles, huserRoles, hnames⟩
    rw [← htables] at hroles huserRoles
    exact ⟨hroles, huserRoles, hnames⟩

theorem acceptsRoles_iff_acceptsNames {world : World} {dto : ProvisionUserDto}
    {roleNames : List JsString} (hroles : dto.roles = some roleNames) (hne : roleNames ≠ []) :
    AcceptsRoles tablePrefix world dto ↔ AcceptsNames tablePrefix world roleNames := by
  constructor
  · exact fun h => h roleNames hroles hne
  · intro h other hother _
    obtain rfl : roleNames = other := Option.some.inj (hroles.symm.trans hother)
    exact h

/-- The part of `createLocalUser` from the creation on. -/
theorem wp_creation {first world : World} {dto : ProvisionUserDto} {usersTable : TableMeta}
    (hgets : GetsToCreation tablePrefix first dto)
    (hfound : resolve tablePrefix first.tables SystemTable.users.name = some usersTable)
    (hfirst : Unchanged first world) :
    wp (nocodb false).contract
      (do
        let passwordHash ← hashPassword dto.password
        let created ← create usersTable.id (localUserData dto passwordHash)
        let resolved ← Program.ofExcept (toResolvedIdentity created (dto.roles.getD []))
        match dto.roles with
        | none => return resolved
        | some roles =>
            if roles.isEmpty then return resolved
            else
              assignRolesByName tablePrefix resolved.userId roles
              return resolved)
      (CreationOutcome tablePrefix dto first) world := by
  rw [wp_bind]
  refine wp_hashPassword fun passwordHash w₁ h₁ => ?_
  rw [onOk_ok, wp_bind]
  refine wp_create_changed (hfirst.trans h₁) hfound (fun hfaults => by contradiction) ?_
  intro user w₂ _ hchanged
  obtain ⟨hnew, hmem⟩ := hchanged.inserted_mem
  -- the created record carries its key, so it resolves to an identity
  obtain ⟨resolved, hresolved, hid⟩ : ∃ resolved,
      toResolvedIdentity (flattenRecord none user) (dto.roles.getD []) = .ok resolved ∧
        resolved.userId = .ofNat user.id := ⟨_, rfl, rfl⟩
  have hsucceeds : ∀ world', user ∈ systemRows tablePrefix world' .users →
      AcceptsRoles tablePrefix first dto →
        CreationOutcome tablePrefix dto first (.ok resolved) world' :=
    fun world' hmem' haccepts =>
      Or.inr ⟨hgets, ⟨user, hmem', hnew⟩, fun _ => iff_of_true rfl haccepts⟩
  simp only [onOk_ok, wp_bind, wp_ofExcept, hresolved]
  cases hroles : dto.roles with
  | none =>
      refine hsucceeds w₂ hmem fun roleNames hsome => ?_
      rw [hroles] at hsome
      contradiction
  | some roleNames =>
      show wp _ (if roleNames.isEmpty = true then _ else _) _ w₂
      split
      · next hempty =>
          refine hsucceeds w₂ hmem fun other hother hne => ?_
          obtain rfl : roleNames = other := Option.some.inj (hroles.symm.trans hother)
          exact absurd (List.isEmpty_iff.mp hempty) hne
      · next hnonempty =>
          have hne : roleNames ≠ [] := fun h => hnonempty (List.isEmpty_iff.mpr h)
          rw [wp_bind, hid]
          refine wp_mono (wp_assignRolesByName_tried hmem) fun result w₃ htried => ?_
          have hmem₃ := htried.grows .users user hmem
          have houtcome : PlainIds tablePrefix w₃ →
              (result.isOk = true ↔ AcceptsRoles tablePrefix first dto) := by
            rw [acceptsRoles_iff_acceptsNames hroles hne,
              ← acceptsNames_of_tables hchanged.tables]
            exact htried.accepts
          cases result with
          | ok _ => exact Or.inr ⟨hgets, ⟨user, hmem₃, hnew⟩, houtcome⟩
          | error exception => exact Or.inr ⟨hgets, ⟨user, hmem₃, hnew⟩, houtcome⟩

theorem wp_createLocalUser_creation {world : World} {dto : ProvisionUserDto} :
    wp (nocodb false).contract (createLocalUser tablePrefix dto)
      (CreationOutcome tablePrefix dto world) world := by
  have hid : js "username" ≠ js "id" ∧ js "email" ≠ js "id" := by decide
  -- what fails before the creation changes nothing
  have hrejected : ∀ exception world', ¬ GetsToCreation tablePrefix world dto →
      Unchanged world world' → CreationOutcome tablePrefix dto world (.error exception) world' :=
    fun exception world' hnot h => Or.inl ⟨hnot, rfl, h⟩
  rw [createLocalUser]
  refine wp_requiredTable_faultless (Unchanged.refl world) ?_ fun usersTable w₁ hfound h₁ => ?_
  · intro hnone exception w₁ h₁
    refine hrejected exception w₁ (fun hgets => ?_) h₁
    have htable := hgets.table
    rw [hnone] at htable
    contradiction
  rw [wp_bind, wp_ofExcept]
  cases husername : filterEqValue (js "username") (.string dto.username) with
  | error exception =>
      refine hrejected exception w₁ (fun hgets => ?_) h₁
      have hok := hgets.username
      rw [husername] at hok
      contradiction
  | ok usernameFilter =>
      rw [onOk_ok, wp_bind]
      refine wp_findOne (selectRows_filterEqValue husername)
        (fun row => satisfies_eq row (js "username") (.string (trim dto.username)))
        (fun hfaults => by contradiction) ?_ ?_
      · intro hnoName w₂ h₂
        have h₂ := h₁.trans h₂
        simp only [onOk_ok, wp_bind, wp_ofExcept]
        cases hemail : filterEqValue (js "email") (.string dto.email) with
        | error exception =>
            refine hrejected exception w₂ (fun hgets => ?_) h₂
            have hok := hgets.email
            rw [hemail] at hok
            contradiction
        | ok emailFilter =>
            rw [onOk_ok, wp_bind]
            refine wp_findOne (selectRows_filterEqValue hemail)
              (fun row => satisfies_eq row (js "email") (.string (trim dto.email)))
              (fun hfaults => by contradiction) ?_ ?_
            · intro hnoEmail w₃ h₃
              rw [h₁.rows] at hnoName
              rw [h₂.rows] at hnoEmail
              rw [← systemRows_eq hfound] at hnoName hnoEmail
              have hgets : GetsToCreation tablePrefix world dto :=
                ⟨by rw [hfound]; rfl, by rw [husername]; rfl, hnoName, by rw [hemail]; rfl,
                  hnoEmail⟩
              exact wp_creation hgets hfound (h₂.trans h₃)
            · intro row hrow hmail w₃ h₃
              refine hrejected _ w₃ (fun hgets => ?_) (h₂.trans h₃)
              rw [h₂.rows, ← systemRows_eq hfound] at hrow
              exact hgets.freeEmail row hrow hmail
      · intro row hrow hname w₂ h₂
        refine hrejected _ w₂ (fun hgets => ?_) (h₁.trans h₂)
        rw [h₁.rows, ← systemRows_eq hfound] at hrow
        exact hgets.freeUsername row hrow hname

/-- Where no request fails, a call of `createLocalUser` is all or nothing exactly if it does
not get to the creation of the user or all roles are accepted. -/
theorem creation_all_or_nothing_iff (tablePrefix : JsString) {world world' : World}
    {dto : ProvisionUserDto} {result : Except Exception ResolvedIdentity}
    (hexec : Exec (nocodb false).contract (createLocalUser tablePrefix dto) world result world')
    (hplain : PlainIds tablePrefix world') :
    (result.isOk = false → KeepsAccounts tablePrefix world world') ↔
      (GetsToCreation tablePrefix world dto → AcceptsRoles tablePrefix world dto) := by
  rcases wp_sound wp_createLocalUser_creation hexec with
    ⟨hnot, -, hunchanged⟩ | ⟨hgets, ⟨user, hmem, hnew⟩, haccepts⟩
  · have hkeeps : KeepsAccounts tablePrefix world world' :=
      ⟨hunchanged.systemRows_eq _ _, hunchanged.systemRows_eq _ _⟩
    exact iff_of_true (fun _ => hkeeps) fun hgets => absurd hgets hnot
  · have hchanged : ¬ KeepsAccounts tablePrefix world world' := by
      rintro ⟨husers, -⟩
      exact hnew (husers ▸ hmem)
    cases hresult : result.isOk with
    | false =>
        have hrejects : ¬ AcceptsRoles tablePrefix world dto := by
          rw [← haccepts hplain, hresult]
          exact Bool.false_ne_true
        exact iff_of_false (fun h => hchanged (h rfl)) fun h => hrejects (h hgets)
    | true =>
        have hroles := (haccepts hplain).mp hresult
        exact iff_of_true (fun h => by contradiction) fun _ => hroles

end

/-- A new user with the given roles. -/
def aliceDto (roleNames : List JsString) : ProvisionUserDto :=
  ⟨js "alice", js "alice@example.com", js "StrongPassword#123", some roleNames, none⟩

/-- The store after `alice` was created with the role of administrators. -/
def provisionedWorld : World :=
  settle false (Auth.createLocalUser [] (aliceDto [js "admin"])) (prompt 11) seededWorld

theorem creation_all_or_nothing_iff_alice :
    ∃ result, Exec (nocodb false).contract (createLocalUser [] (aliceDto [js "admin"]))
        seededWorld result provisionedWorld ∧
      ((result.isOk = false → KeepsAccounts [] seededWorld provisionedWorld) ↔
        (GetsToCreation [] seededWorld (aliceDto [js "admin"]) →
          AcceptsRoles [] seededWorld (aliceDto [js "admin"]))) := by
  obtain ⟨result, hexec, -⟩ : Completes false (createLocalUser [] (aliceDto [js "admin"]))
      seededWorld true provisionedWorld := completes_of_run (by decide)
  have hplain : ∀ table ∈ SystemTable.all, ∀ row ∈ systemRows [] provisionedWorld table,
      row.id < 10 ^ 21 := by
    decide
  exact ⟨result, hexec, creation_all_or_nothing_iff [] hexec fun table =>
    hplain table (SystemTable.mem_all table)⟩

/-- A blank role name is rejected after the user was created and given the role before it. -/
theorem user_left_by_blank_role :
    ∃ world', Completes false (createLocalUser [] (aliceDto [js "admin", js " "])) seededWorld
        false world' ∧
      ¬ KeepsAccounts [] seededWorld world' ∧
      (systemRows [] world' .users).length = 1 ∧ (systemRows [] world' .userRoles).length = 1 := by
  refine ⟨settle false (Auth.createLocalUser [] (aliceDto [js "admin", js " "])) (prompt 11)
    seededWorld, completes_of_run (by decide), ?_, by decide, by decide⟩
  rintro ⟨husers, -⟩
  revert husers
  decide

end Runs
end NocoMiddleware
