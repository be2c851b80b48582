import NocoMiddleware.Runs.AccountLinks

/-!
# Unique emails and subjects of accounts

`upsertIdentityUser` writes an email or a subject only after it has looked for exactly
that value, so it keeps both unique.  `createLocalUser` looks for the trimmed email but
stores it untrimmed, and it also stores it as a local subject, which it does not look for.
-/

namespace NocoMiddleware
namespace Runs

open NocoMiddleware.Js NocoMiddleware.Filter NocoMiddleware.Tables NocoMiddleware.Store
open NocoMiddleware.Users NocoMiddleware.Auth NocoMiddleware.Foundation

/-- The email of a user, if it is not empty. -/
def emailKey (row : Row) : Option JsString :=
  match row.cell (js "email") with
  | .string email => if email = [] then none else some email
  | _ => none

/-- The provider and the subject of a user. -/
def subjectKey (row : Row) : Option (JsString × JsString) :=
  match row.cell (js "auth_provider"), row.cell (js "external_subject") with
  | .string provider, .string subject => some (provider, subject)
  | _, _ => none

/-- No two users share an email, and no two share a provider and a subject. -/
structure UniqueAccounts (tablePrefix : JsString) (world : World) : Prop where
  emails : UniqueKeys emailKey (systemRows tablePrefix world .users)
  subjects : UniqueKeys subjectKey (systemRows tablePrefix world .users)

/-- The lookups of `createLocalUser` cannot be built, or find a user with the name or the
email. -/
def IsRefused (tablePrefix : JsString) (dto : ProvisionUserDto) (world : World) : Prop :=
  (filterEqValue (js "username") (.string dto.username)).isOk = false ∨
    (filterEqValue (js "email") (.string dto.email)).isOk = false ∨
    ∃ other ∈ systemRows tablePrefix world .users,
      other.cell (js "username") = .string (trim dto.username) ∨
        other.cell (js "email") = .string (trim dto.email)

/-- No user has the email that `createLocalUser` stores, or has it as a local subject. -/
def StoresFresh (tablePrefix : JsString) (dto : ProvisionUserDto) (world : World) : Prop :=
  ∀ other ∈ systemRows tablePrefix world .users,
    emailKey other ≠ some dto.email ∧ subjectKey other ≠ some (js "local", dto.email)

/-- A call of `upsertIdentityUser` or of `createLocalUser`. -/
def IsProvisioning : AccountCall → Prop
  | .upsertIdentityUser _ => True
  | .createLocalUser _ => True
  | _ => False

/-- A call of `upsertIdentityUser` for normalized claims of the external provider, or of
`createLocalUser` that is refused or stores a fresh email. -/
def Provisions (tablePrefix : JsString) : AccountCall → World → Prop
  | .upsertIdentityUser claims, _ => IsExternal claims
  | .createLocalUser dto, world =>
      IsRefused tablePrefix dto world ∨ StoresFresh tablePrefix dto world
  | _, _ => False

section

variable {tablePrefix : JsString} {claims : NormalizedIdentityClaims} {world world' : World}

theorem emailKey_eq_some_iff (row : Row) (email : JsString) :
    emailKey row = some email ↔ row.cell (js "email") = .string email ∧ email ≠ [] := by
  unfold emailKey
  split
  · next stored hcell =>
      rw [hcell, JsValue.string.injEq]
      split
      · next hempty => simp [hempty, eq_comm]
      · next hne =>
          rw [Option.some.injEq]
          exact ⟨fun h => ⟨h, h ▸ hne⟩, fun h => h.1⟩
  · next hcell =>
      refine iff_of_false (by simp) ?_
      rintro ⟨hemail, -⟩
      exact hcell email hemail

theorem subjectKey_eq_some_iff (row : Row) (provider subject : JsString) :
    subjectKey row = some (provider, subject) ↔
      row.cell (js "auth_provider") = .string provider ∧
        row.cell (js "external_subject") = .string subject := by
  unfold subjectKey
  split
  · next hprovider hsubject => simp [hprovider, hsubject]
  · next hcells =>
      refine iff_of_false (by simp) ?_
      rintro ⟨hprovider, hsubject⟩
      exact hcells provider subject hprovider hsubject

theorem isOfSubject_iff_subjectKey (hclaims : IsExternal claims) (row : Row) :
    IsOfSubject claims row ↔ subjectKey row = some (js "external", claims.subject) :=
  (isOfSubject_iff hclaims row).trans (subjectKey_eq_some_iff _ _ _).symm

theorem isOfEmail_iff_emailKey (hclaims : IsExternal claims) (row : Row) :
    IsOfEmail claims row ↔ ∃ email, claims.email = some email ∧ emailKey row = some email := by
  obtain ⟨payload, hnormalize⟩ := hclaims
  have htrimmed := (trimmed_of_normalize hnormalize).email
  unfold IsOfEmail
  constructor
  · rintro ⟨email, hmem, hcell⟩
    obtain ⟨hemail, -⟩ := Option.filter_eq_some_iff.mp hmem
    rw [(htrimmed email hemail).2] at hcell
    exact ⟨email, hemail, (emailKey_eq_some_iff _ _).mpr ⟨hcell, (htrimmed email hemail).1⟩⟩
  · rintro ⟨email, hemail, hkey⟩
    obtain ⟨hcell, hne⟩ := (emailKey_eq_some_iff _ _).mp hkey
    refine ⟨email, Option.filter_eq_some_iff.mpr ⟨hemail, by simpa using hne⟩, ?_⟩
    rwa [(htrimmed email hemail).2]

/-! ## What the calls store -/

theorem subjectKey_of_isLinkedTo {subject : JsString} {row : Row} (h : IsLinkedTo subject row) :
    subjectKey row = some (js "external", subject) :=
  (subjectKey_eq_some_iff _ _ _).mpr h

/-- A refreshed user has the email of the claims, or keeps its own. -/
theorem emailKey_refreshed {row : Row} {email : JsString}
    (h : emailKey (row.patch (refreshedData claims (flattenRecord none row))) = some email) :
    claims.email = some email ∨ emailKey row = some email := by
  rw [emailKey_eq_some_iff, cell_email_refreshed] at h
  cases hclaim : claims.email with
  | none =>
      rw [hclaim] at h
      exact Or.inr ((emailKey_eq_some_iff _ _).mpr h)
  | some claimed =>
      rw [hclaim] at h
      rw [JsValue.string.inj h.1]
      exact Or.inl rfl

/-- A created user has the email of the claims, if they have one. -/
theorem emailKey_created {row : Row} (hcells : row.cells = toCells (identityUserData claims))
    {email : JsString} (h : emailKey row = some email) : claims.email = some email := by
  obtain ⟨hcell, -⟩ := (emailKey_eq_some_iff _ _).mp h
  rw [Row.cell_of_toCells hcells (nodup_identityUserData claims) (by decide)] at hcell
  replace hcell : written (optionValue claims.email) .undefined = .string email := hcell
  cases hemail : claims.email with
  | none =>
      rw [hemail] at hcell
      contradiction
  | some other =>
      rw [hemail] at hcell
      rw [JsValue.string.inj hcell]

/-- The email of a local user is the one of the dto, as it was given. -/
theorem emailKey_local {dto : ProvisionUserDto} {passwordHash : JsString} {row : Row}
    (hcells : row.cells = toCells (localUserData dto passwordHash)) {email : JsString}
    (h : emailKey row = some email) : dto.email = email := by
  obtain ⟨hcell, -⟩ := (emailKey_eq_some_iff _ _).mp h
  rw [Row.cell_of_cells hcells (by decide)] at hcell
  exact JsValue.string.inj hcell

theorem subjectKey_local {dto : ProvisionUserDto} {passwordHash : JsString} {row : Row}
    (hcells : row.cells = toCells (localUserData dto passwordHash)) :
    subjectKey row = some (js "local", dto.email) := by
  refine (subjectKey_eq_some_iff _ _ _).mpr ⟨?_, ?_⟩
  · exact (Row.cell_of_cells hcells (by decide)).trans rfl
  · exact (Row.cell_of_cells hcells (by decide)).trans rfl

/-- An assignment has no email and no provider. -/
theorem keys_assignment {userId roleId : JsNumber} {assignedAt : JsString} {row : Row}
    (hcells : row.cells = toCells (assignmentData userId roleId assignedAt)) :
    emailKey row = none ∧ subjectKey row = none := by
  have hkeys : ((assignmentData userId roleId assignedAt).map Prod.fst).Nodup := by
    show [js "user_id", js "role_id", js "assigned_at"].Nodup
    decide
  have hemail : row.cell (js "email") = .undefined :=
    (Row.cell_of_toCells hcells hkeys (by decide)).trans rfl
  have hprovider : row.cell (js "auth_provider") = .undefined :=
    (Row.cell_of_toCells hcells hkeys (by decide)).trans rfl
  exact ⟨by rw [emailKey, hemail], by rw [subjectKey, hprovider]⟩

/-! ## Single changes -/

theorem uniqueAccounts_unchanged : Preserves Unchanged (UniqueAccounts tablePrefix) := by
  intro world world' h hunique
  constructor
  · rw [h.systemRows_eq]
    exact hunique.emails
  · rw [h.systemRows_eq]
    exact hunique.subjects

/-- Inserting a row whose keys no user has, into any table. -/
theorem uniqueAccounts_insert {table : SystemTable} {row : Row}
    (h : Changed tablePrefix table (.insert row) world world')
    (hemail : ∀ email, emailKey row = some email →
      ∀ other ∈ systemRows tablePrefix world .users, emailKey other ≠ some email)
    (hsubject : ∀ subject, subjectKey row = some subject →
      ∀ other ∈ systemRows tablePrefix world .users, subjectKey other ≠ some subject)
    (hunique : UniqueAccounts tablePrefix world) : UniqueAccounts tablePrefix world' := by
  obtain ⟨hemails, hsubjects⟩ := hunique
  rcases h.applies_or_eq .users with heq | ⟨before, after, hbefore, hafter, hfresh, rfl⟩
  · rw [← heq] at hemails hsubjects
    exact ⟨hemails, hsubjects⟩
  · rw [hbefore] at hemails hsubjects hemail hsubject
    constructor
    · rw [hafter, Table.rows_insert]
      exact hemails.append_singleton hemail
    · rw [hafter, Table.rows_insert]
      exact hsubjects.append_singleton hsubject

/-- Overwriting a user with keys that no other user has. -/
theorem uniqueAccounts_patch {row : Row} {data : Payload}
    (h : Changed tablePrefix .users (.patch row data) world world')
    (hemail : ∀ email, emailKey (row.patch data) = some email →
      ∀ other ∈ systemRows tablePrefix world .users, emailKey other = some email → other = row)
    (hsubject : ∀ subject, subjectKey (row.patch data) = some subject →
      ∀ other ∈ systemRows tablePrefix world .users, subjectKey other = some subject → other = row)
    (hunique : UniqueAccounts tablePrefix world) : UniqueAccounts tablePrefix world' := by
  constructor
  · exact hunique.emails.replace_of_free hemail fun _ => h.of_mem_patch
  · exact hunique.subjects.replace_of_free hsubject fun _ => h.of_mem_patch

/-! ## Calls -/

/-- Where the emails are unique, a user with the email of the claims is the one that the
lookup finds. -/
theorem find_isOfEmail (hclaims : IsExternal claims) {email : JsString}
    (hclaim : claims.email = some email) {row : Row}
    (hrow : row ∈ systemRows tablePrefix world .users) (hkey : emailKey row = some email)
    (hunique : UniqueAccounts tablePrefix world) :
    (systemRows tablePrefix world .users).find? (fun row => IsOfEmail claims row) = some row := by
  have hof : IsOfEmail claims row :=
    (isOfEmail_iff_emailKey hclaims row).mpr ⟨email, hclaim, hkey⟩
  apply find_of_unique hrow hof
  intro found hfound hfoundOf
  obtain ⟨stored, hstored, hfoundKey⟩ := (isOfEmail_iff_emailKey hclaims found).mp hfoundOf
  obtain rfl : email = stored := Option.some.inj (hclaim.symm.trans hstored)
  exact hunique.emails email found hfound row hrow hfoundKey hkey

/-- A login keeps the emails and the subjects unique. -/
theorem uniqueAccounts_upserted {identity : ResolvedIdentity} (hclaims : IsExternal claims)
    (h : Upserted tablePrefix claims world world' identity)
    (hunique : UniqueAccounts tablePrefix world) : UniqueAccounts tablePrefix world' := by
  have hnoSubject : (systemRows tablePrefix world .users).find?
      (fun row => IsOfSubject claims row) = none →
        ∀ other ∈ systemRows tablePrefix world .users,
          subjectKey other ≠ some (js "external", claims.subject) := by
    intro hnone other hother hkey
    have hno := find_eq_none.mp hnone other hother
    rw [isOfSubject_iff_subjectKey hclaims] at hno
    exact hno hkey
  cases h with
  | @refreshed row hsubject hemail hchanged =>
      have hrow := hchanged.mem_of_patch
      refine uniqueAccounts_patch hchanged ?_ ?_ hunique
      · intro email hkey other hother hsame
        rcases emailKey_refreshed hkey with hclaim | hold
        · -- another user with the email would have been found, which is a conflict
          have hfound := find_isOfEmail hclaims hclaim hother hsame hunique
          exact eq_of_mem_systemRows hother hrow (hemail other hfound)
        · exact hunique.emails email other hother row hrow hsame hold
      · intro subject hkey other hother hsame
        have hold : subjectKey row = some subject := by
          rw [subjectKey, cell_refreshed _ _ _ (by decide),
            cell_refreshed _ _ _ (by decide)] at hkey
          exact hkey
        exact hunique.subjects subject other hother row hrow hsame hold
  | @linked row hsubject hemail hchanged =>
      have hrow := hchanged.mem_of_patch
      refine uniqueAccounts_patch hchanged ?_ ?_ hunique
      · intro email hkey other hother hsame
        have hold : emailKey row = some email := by
          rw [emailKey, cell_linked _ _ _ (by decide)] at hkey
          exact hkey
        exact hunique.emails email other hother row hrow hsame hold
      · intro subject hkey other hother hsame
        rw [subjectKey_of_isLinkedTo (isLinkedTo_linked hclaims _ row)] at hkey
        obtain rfl := Option.some.inj hkey
        exact absurd hsame (hnoSubject hsubject other hother)
  | @created row hsubject hemail hcells hchanged =>
      refine uniqueAccounts_insert hchanged ?_ ?_ hunique
      · intro email hkey other hother hsame
        have hno := List.find?_eq_none.mp hemail other hother
        rw [decide_eq_true_iff, isOfEmail_iff_emailKey hclaims] at hno
        exact hno ⟨email, emailKey_created hcells hkey, hsame⟩
      · intro subject hkey
        rw [subjectKey_of_isLinkedTo (isLinkedTo_created hclaims hcells)] at hkey
        obtain rfl := Option.some.inj hkey
        exact hnoSubject hsubject

/-- Roles given to a user have no keys. -/
theorem uniqueAccounts_rolesGiven (userId : JsNumber) :
    Preserves (RolesGiven tablePrefix userId) (UniqueAccounts tablePrefix) := by
  refine (uniqueAccounts_unchanged.or ?_).reflTransGen
  rintro world world' ⟨roleId, assignedAt, row, -, -, -, hcells, hchanged⟩
  obtain ⟨hemail, hsubject⟩ := keys_assignment hcells
  refine uniqueAccounts_insert hchanged ?_ ?_
  · rw [hemail]
    nofun
  · rw [hsubject]
    nofun

/-- The lookups of a call that creates a user have not refused it. -/
theorem not_isRefused_of_created {dto : ProvisionUserDto}
    (h : LocalUserCreated tablePrefix dto world world') : ¬ IsRefused tablePrefix dto world := by
  obtain ⟨⟨hname, hmail⟩, hfree, -⟩ := h
  rintro (hno | hno | ⟨other, hother, hfound | hfound⟩)
  · rw [hno] at hname
    contradiction
  · rw [hno] at hmail
    contradiction
  · exact absurd hfound (hfree other hother).1
  · exact absurd hfound (hfree other hother).2

/-- A created local user keeps the emails and the subjects unique if what it stores is
fresh. -/
theorem uniqueAccounts_localUserCreated {dto : ProvisionUserDto}
    (hfresh : IsRefused tablePrefix dto world ∨ StoresFresh tablePrefix dto world)
    (h : LocalUserCreated tablePrefix dto world world')
    (hunique : UniqueAccounts tablePrefix world) :
    UniqueAccounts tablePrefix world' := by
  have hstores := hfresh.resolve_left (not_isRefused_of_created h)
  obtain ⟨row, passwordHash, middle, hcells, hchanged, hroles⟩ := h.2.2
  refine uniqueAccounts_rolesGiven _ _ _ hroles (uniqueAccounts_insert hchanged ?_ ?_ hunique)
  · intro email hkey other hother
    obtain rfl := emailKey_local hcells hkey
    exact (hstores other hother).1
  · intro subject hkey other hother
    rw [subjectKey_local hcells] at hkey
    obtain rfl := Option.some.inj hkey
    exact (hstores other hother).2

/-- One call that meets the condition keeps the emails and the subjects unique. -/
theorem uniqueAccounts_accountStep :
    Preserves (AccountStep tablePrefix (Provisions tablePrefix)) (UniqueAccounts tablePrefix) := by
  rintro world world' ⟨call, exception, hcondition, hends⟩ hunique
  cases call with
  | upsertIdentityUser claims =>
      obtain ⟨result, hexec, -⟩ := hends
      have houtcome := wp_sound wp_upsertIdentityUser hexec
      cases result with
      | ok identity => exact uniqueAccounts_upserted hcondition houtcome hunique
      | error exception => exact uniqueAccounts_unchanged _ _ houtcome hunique
  | createLocalUser dto =>
      obtain ⟨result, hexec, -⟩ := hends
      have houtcome := wp_sound wp_createLocalUser_outcome hexec
      rcases unchanged_or_created houtcome with hunchanged | hcreated
      · exact uniqueAccounts_unchanged _ _ hunchanged hunique
      · exact uniqueAccounts_localUserCreated hcondition hcreated hunique
  | validate provider payload => exact hcondition.elim
  | bootstrapAdmin configuredToken dto bootstrapToken => exact hcondition.elim
  | setUserStatus userId isActive => exact hcondition.elim

/-- `upsertIdentityUser` and `createLocalUser` change nothing before a conflict. -/
theorem unchanged_of_conflict {call : AccountCall} {exception : Exception}
    (hcall : IsProvisioning call) (h : call.Ends tablePrefix world (some exception) world')
    (hconflict : exception.isConflict = true) : Unchanged world world' := by
  cases call with
  | upsertIdentityUser claims =>
      obtain ⟨result, hexec, hresult⟩ := h
      have houtcome := wp_sound wp_upsertIdentityUser hexec
      cases result with
      | ok identity => contradiction
      | error thrown => exact houtcome
  | createLocalUser dto =>
      obtain ⟨result, hexec, hresult⟩ := h
      have houtcome := wp_sound wp_createLocalUser_outcome hexec
      cases result with
      | ok identity => contradiction
      | error thrown =>
          obtain rfl := Option.some.inj hresult
          rcases houtcome with hunchanged | ⟨hno, -⟩
          · exact hunchanged
          · rw [hconflict] at hno
            contradiction
  | validate provider payload => exact hcall.elim
  | bootstrapAdmin configuredToken dto bootstrapToken => exact hcall.elim
  | setUserStatus userId isActive => exact hcall.elim

/-- Emails and subjects stay unique over every sequential run in which what is stored for
a local user is fresh, and a call that ends with a conflict leaves the users alone. -/
theorem unique_accounts_of_run (tablePrefix : JsString) {first world : World}
    (hfirst : UniqueAccounts tablePrefix first)
    (hrun : Relation.ReflTransGen (AccountStep tablePrefix (Provisions tablePrefix)) first world) :
    UniqueAccounts tablePrefix world ∧
      ∀ (call : AccountCall) (exception : Exception) (world' : World), IsProvisioning call →
        call.Ends tablePrefix world (some exception) world' → exception.isConflict = true →
        systemRows tablePrefix world' .users = systemRows tablePrefix world .users := by
  refine ⟨uniqueAccounts_accountStep.reflTransGen _ _ hrun hfirst, ?_⟩
  intro call exception world' hcall hends hconflict
  exact (unchanged_of_conflict hcall hends hconflict).systemRows_eq tablePrefix .users

end

/-- A local user whose email was changed after it was created. -/
def bobMoved : World :=
  .holding []
    [(js "users", .ofRows
      [.ofCells 1 [(js "username", .string (js "robert")),
        (js "email", .string (js "robert@x.org")), (js "auth_provider", .string (js "local")),
        (js "external_subject", .string (js "bob@x.org"))]])]

/-- A local user with a name and an email. -/
def localUser (username email : JsString) : ProvisionUserDto :=
  ⟨username, email, js "StrongPassword#123", none, none⟩

theorem uniqueAccounts_bobMoved : UniqueAccounts [] bobMoved :=
  ⟨UniqueKeys.singleton _, UniqueKeys.singleton _⟩

/-- Ann is created beside the user whose email was changed. -/
theorem unique_accounts_ann :
    ∃ world, (AccountCall.createLocalUser (localUser (js "ann") (js "ann@x.org"))).Ends [] bobMoved
        none world ∧
      UniqueAccounts [] world ∧
      ∀ (call : AccountCall) (exception : Exception) (world' : World), IsProvisioning call →
        call.Ends [] world (some exception) world' → exception.isConflict = true →
        systemRows [] world' .users = systemRows [] world .users := by
  have hends :
      (AccountCall.createLocalUser (localUser (js "ann") (js "ann@x.org"))).Ends [] bobMoved none
      (settle true (createLocalUser [] (localUser (js "ann") (js "ann@x.org"))) (prompt 5)
        bobMoved) := finishes_of_run (by decide +kernel)
  have hstores : StoresFresh [] (localUser (js "ann") (js "ann@x.org")) bobMoved := by
    intro other hother
    obtain rfl := List.eq_of_mem_singleton hother
    decide
  have hstep : AccountStep [] (Provisions []) bobMoved _ :=
    ⟨.createLocalUser _, _, Or.inr hstores, hends⟩
  exact ⟨_, hends, unique_accounts_of_run [] uniqueAccounts_bobMoved (.single hstep)⟩

/-- A local user with the former email of another one gets the same local subject. -/
theorem local_subject_shared :
    UniqueAccounts [] bobMoved ∧ 3 ≤ (localUser (js "bobby") (js "bob@x.org")).username.length ∧
      12 ≤ (localUser (js "bobby") (js "bob@x.org")).password.length ∧
      ∃ world,
        (AccountCall.createLocalUser (localUser (js "bobby") (js "bob@x.org"))).Ends [] bobMoved
          none world ∧
        ¬ UniqueAccounts [] world := by
  have hends :
      (AccountCall.createLocalUser (localUser (js "bobby") (js "bob@x.org"))).Ends [] bobMoved
      none (settle true (createLocalUser [] (localUser (js "bobby") (js "bob@x.org"))) (prompt 5)
        bobMoved) := finishes_of_run (by decide +kernel)
  have hshared : ∃ first ∈ systemRows [] (settle true (createLocalUser []
        (localUser (js "bobby") (js "bob@x.org"))) (prompt 5) bobMoved) .users,
      ∃ second ∈ systemRows [] (settle true (createLocalUser []
        (localUser (js "bobby") (js "bob@x.org"))) (prompt 5) bobMoved) .users,
        first ≠ second ∧ subjectKey first = some (js "local", js "bob@x.org") ∧
          subjectKey second = some (js "local", js "bob@x.org") := by
    decide +kernel
  refine ⟨uniqueAccounts_bobMoved, by decide, by decide, _, hends, fun hunique => ?_⟩
  obtain ⟨first, hfirst, second, hsecond, hne, hkey, hsame⟩ := hshared
  exact hne (hunique.subjects _ first hfirst second hsecond hkey hsame)

end Runs
end NocoMiddleware
