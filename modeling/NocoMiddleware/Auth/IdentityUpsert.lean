import NocoMiddleware.Auth.IdentityClaimsNormalizer
import NocoMiddleware.Auth.UserProvisioningService

/-!
# Users of an identity provider

`upsertIdentityUser` looks a user up by the subject and by the email of the claims, and
refreshes the user of the subject, links the user of the email to the subject, or creates
one; users of two different rows are a conflict.  `setUserStatus` overwrites `is_active`.
-/

namespace NocoMiddleware
namespace Auth

open NocoMiddleware.Js NocoMiddleware.Filter NocoMiddleware.Tables NocoMiddleware.Store
open NocoMiddleware.Foundation

/-! ## The methods -/

/-- The value of an optional property. -/
def optionValue : Option JsString → JsValue
  | none => .undefined
  | some text => .string text

/-- `defaultUsername`. -/
def defaultUsername (claims : NormalizedIdentityClaims) : JsString :=
  match claims.email with
  | some email => email.takeWhile (· ∉ js "@")
  | none => js "user_" ++ claims.subject

/-- What is written to the user of the subject. -/
def refreshedData (claims : NormalizedIdentityClaims) (bySubject : NocoRecord) : Payload :=
  [(js "email", (optionValue claims.email).orElse (bySubject.get (js "email"))),
    (js "username", (optionValue claims.username).orElse (bySubject.get (js "username")))]

/-- What is written to the user of the email. -/
def linkedData (claims : NormalizedIdentityClaims) (byEmail : NocoRecord) : Payload :=
  [(js "auth_provider", .string claims.provider.text),
    (js "external_subject", .string claims.subject),
    (js "username", (optionValue claims.username).orElse (byEmail.get (js "username")))]

/-- The fields of a new user of an identity provider. -/
def identityUserData (claims : NormalizedIdentityClaims) : Payload :=
  [(js "username", .string (claims.username.getD (defaultUsername claims))),
    (js "email", optionValue claims.email),
    (js "password_hash", if claims.provider = .localNocodb then .null else .undefined),
    (js "is_active", .boolean true), (js "auth_provider", .string claims.provider.text),
    (js "external_subject", .string claims.subject)]

/-- `findBySubject`. -/
def findBySubject (usersTableId : JsString) (claims : NormalizedIdentityClaims) :
    Service (Option NocoRecord) := do
  let filter ← Program.ofExcept
    (filterBoth (js "auth_provider") (.string claims.provider.text)
      (js "external_subject") (.string claims.subject))
  findOne usersTableId filter

/-- The lookup by email, for claims that have one. -/
def findByEmail (usersTableId : JsString) (claims : NormalizedIdentityClaims) :
    Service (Option NocoRecord) :=
  match claims.email.filter (· ≠ []) with
  | none => return none
  | some email => do
      let filter ← Program.ofExcept (filterEqValue (js "email") (.string email))
      findOne usersTableId filter

/-- Whether the two lookups found different users. -/
def findsTwoUsers (bySubject byEmail : Option NocoRecord) : Except Exception Bool :=
  match bySubject, byEmail with
  | some bySubject, some byEmail => do
      let subjectId ← extractNumericId bySubject
      let emailId ← extractNumericId byEmail
      return subjectId ≠ emailId
  | _, _ => return false

/-- `upsertIdentityUser` after the two lookups. -/
def upsertLookedUp (usersTableId : JsString) (claims : NormalizedIdentityClaims)
    (bySubject byEmail : Option NocoRecord) : Service ResolvedIdentity := do
  let conflicts ← Program.ofExcept (findsTwoUsers bySubject byEmail)
  if conflicts then
    throw (.conflict (js "Identity subject conflicts with existing email mapping"))
  else
    match bySubject, byEmail with
    | some bySubject, _ =>
        let existingId ← Program.ofExcept (extractNumericId bySubject)
        let updated ← update usersTableId existingId (refreshedData claims bySubject)
        Program.ofExcept (toResolvedIdentity updated claims.roles)
    | none, some byEmail =>
        let existingId ← Program.ofExcept (extractNumericId byEmail)
        let updated ← update usersTableId existingId (linkedData claims byEmail)
        Program.ofExcept (toResolvedIdentity updated claims.roles)
    | none, none =>
        let created ← create usersTableId (identityUserData claims)
        Program.ofExcept (toResolvedIdentity created claims.roles)

/-- `upsertIdentityUser`. -/
def upsertIdentityUser (tablePrefix : JsString) (claims : NormalizedIdentityClaims) :
    Service ResolvedIdentity := do
  let usersTable ← getTableByName tablePrefix SystemTable.users.name
  let usersTable ← assertTableRef usersTable
  let bySubject ← findBySubject usersTable.id claims
  let byEmail ← findByEmail usersTable.id claims
  upsertLookedUp usersTable.id claims bySubject byEmail

/-- `setUserStatus`. -/
def setUserStatus (tablePrefix : JsString) (userId : JsNumber) (isActive : Bool) :
    Service ResolvedIdentity := do
  let usersTable ← getTableByName tablePrefix SystemTable.users.name
  let usersTable ← assertTableRef usersTable
  let updated ← update usersTable.id userId [(js "is_active", .boolean isActive)]
  Program.ofExcept (toResolvedIdentity updated [])

/-! ## What the lookups ask for -/

/-- The row is of the user of the subject. -/
def IsOfSubject (claims : NormalizedIdentityClaims) (row : Row) : Prop :=
  row.cell (js "auth_provider") = .string claims.provider.text ∧
    row.cell (js "external_subject") = .string (trim claims.subject)

/-- The row is of the user of the email, for claims that have one. -/
def IsOfEmail (claims : NormalizedIdentityClaims) (row : Row) : Prop :=
  ∃ email ∈ claims.email.filter (· ≠ []), row.cell (js "email") = .string (trim email)

instance (claims : NormalizedIdentityClaims) (row : Row) : Decidable (IsOfSubject claims row) :=
  inferInstanceAs (Decidable (_ ∧ _))

instance (claims : NormalizedIdentityClaims) (row : Row) : Decidable (IsOfEmail claims row) :=
  inferInstanceAs (Decidable (∃ email ∈ claims.email.filter (· ≠ []), _))

/-- The identity that `upsertIdentityUser` returns for a row. -/
def identityOf (claims : NormalizedIdentityClaims) (row : Row) : ResolvedIdentity where
  userId := .ofNat row.id
  username := ((flattenRecord none row).get (js "username")).orElse (.string (js "unknown"))
  email := (flattenRecord none row).get (js "email")
  active := (flattenRecord none row).get (js "is_active") ≠ .boolean false
  roles := claims.roles

/-- What a successful `upsertIdentityUser` does, by what the lookups find. -/
inductive Upserted (tablePrefix : JsString) (claims : NormalizedIdentityClaims)
    (world world' : World) : ResolvedIdentity → Prop where
  | refreshed {row : Row}
      (hsubject : (systemRows tablePrefix world .users).find?
        (fun row => IsOfSubject claims row) = some row)
      (hemail : ∀ other, (systemRows tablePrefix world .users).find?
        (fun row => IsOfEmail claims row) = some other → other.id = row.id)
      (hchanged : Changed tablePrefix .users
        (.patch row (refreshedData claims (flattenRecord none row))) world world') :
      Upserted tablePrefix claims world world'
        (identityOf claims (row.patch (refreshedData claims (flattenRecord none row))))
  | linked {row : Row}
      (hsubject : (systemRows tablePrefix world .users).find?
        (fun row => IsOfSubject claims row) = none)
      (hemail : (systemRows tablePrefix world .users).find?
        (fun row => IsOfEmail claims row) = some row)
      (hchanged : Changed tablePrefix .users
        (.patch row (linkedData claims (flattenRecord none row))) world world') :
      Upserted tablePrefix claims world world'
        (identityOf claims (row.patch (linkedData claims (flattenRecord none row))))
  | created {row : Row}
      (hsubject : (systemRows tablePrefix world .users).find?
        (fun row => IsOfSubject claims row) = none)
      (hemail : (systemRows tablePrefix world .users).find?
        (fun row => IsOfEmail claims row) = none)
      (hcells : row.cells = toCells (identityUserData claims))
      (hchanged : Changed tablePrefix .users (.insert row) world world') :
      Upserted tablePrefix claims world world' (identityOf claims row)

/-- A call that succeeds has upserted the user, one that fails has changed nothing. -/
def UpsertOutcome (tablePrefix : JsString) (claims : NormalizedIdentityClaims) (world : World) :
    Except Exception ResolvedIdentity → World → Prop
  | .ok identity, world' => Upserted tablePrefix claims world world' identity
  | .error _, world' => Unchanged world world'

/-- The status of a user is overwritten. -/
def StatusSet (tablePrefix : JsString) (userId : JsNumber) (isActive : Bool)
    (world world' : World) : Prop :=
  Unchanged world world' ∨
    ∃ row, JsNumber.ofNat row.id = userId ∧
      Changed tablePrefix .users (.patch row [(js "is_active", .boolean isActive)]) world world'

section

variable {faults : Bool} {tablePrefix : JsString} {claims : NormalizedIdentityClaims}
  {world : World}

theorem userId_of_toResolvedIdentity {record : NocoRecord} {roles : List JsString}
    {identity : ResolvedIdentity} (h : toResolvedIdentity record roles = .ok identity) :
    extractNumericId record = .ok identity.userId := by
  obtain ⟨userId, huserId, hidentity⟩ := bind_eq_ok.mp h
  obtain rfl := Except.ok.inj hidentity
  exact huserId

theorem nodup_refreshedData (claims : NormalizedIdentityClaims) (record : NocoRecord) :
    ((refreshedData claims record).map Prod.fst).Nodup := by
  show [js "email", js "username"].Nodup
  decide

theorem nodup_linkedData (claims : NormalizedIdentityClaims) (record : NocoRecord) :
    ((linkedData claims record).map Prod.fst).Nodup := by
  show [js "auth_provider", js "external_subject", js "username"].Nodup
  decide

theorem nodup_identityUserData (claims : NormalizedIdentityClaims) :
    ((identityUserData claims).map Prod.fst).Nodup := by
  show [js "username", js "email", js "password_hash", js "is_active", js "auth_provider",
    js "external_subject"].Nodup
  decide

/-- Refreshing a user leaves all fields but its email and its name alone. -/
theorem cell_refreshed (claims : NormalizedIdentityClaims) (record : NocoRecord) (row : Row)
    {title : JsString} (h : title ∉ [js "email", js "username"]) :
    (row.patch (refreshedData claims record)).cell title = row.cell title :=
  row.cell_patch_of_notMem h

/-- The email of a refreshed user is that of the claims, or stays. -/
theorem cell_email_refreshed (claims : NormalizedIdentityClaims) (row : Row) :
    (row.patch (refreshedData claims (flattenRecord none row))).cell (js "email") =
      (claims.email.map JsValue.string).getD (row.cell (js "email")) := by
  rw [Row.cell_patch _ (nodup_refreshedData _ _) (by decide)]
  show written ((optionValue claims.email).orElse ((flattenRecord none row).get (js "email")))
    (row.cell (js "email")) = _
  rw [get_flattenRecord (by decide) (by decide)]
  cases claims.email with
  | none => exact Row.written_cell row (by decide)
  | some email => rfl

/-- Linking a user leaves all fields but its subject and its name alone. -/
theorem cell_linked (claims : NormalizedIdentityClaims) (record : NocoRecord) (row : Row)
    {title : JsString} (h : title ∉ [js "auth_provider", js "external_subject", js "username"]) :
    (row.patch (linkedData claims record)).cell title = row.cell title :=
  row.cell_patch_of_notMem h

theorem active_identityOf (claims : NormalizedIdentityClaims) {row : Row}
    (h : row.cell (js "is_active") = .boolean false) : (identityOf claims row).active = false := by
  have hget : (flattenRecord none row).get (js "is_active") = .boolean false := by
    rw [get_flattenRecord (by decide) (by decide), h]
  simp [identityOf, hget]

theorem trim_text_provider (provider : AuthProvider) : trim provider.text = provider.text := by
  cases provider <;> decide

theorem satisfies_isOfSubject (row : Row) :
    (satisfies row (eqCondition (js "auth_provider") (.string claims.provider.text)) &&
      satisfies row (eqCondition (js "external_subject") (.string claims.subject))) =
      decide (IsOfSubject claims row) := by
  have hprovider : js "auth_provider" ≠ js "id" := by decide
  have hsubject : js "external_subject" ≠ js "id" := by decide
  rw [Bool.eq_iff_iff, Bool.and_eq_true, decide_eq_true_iff, eqCondition, eqCondition,
    satisfies_eq, satisfies_eq, fieldTitle, if_neg hprovider, fieldTitle, if_neg hsubject,
    trim_text_provider]
  rfl

theorem satisfies_isOfEmail {email : JsString} (hemail : claims.email.filter (· ≠ []) = some email)
    (row : Row) :
    satisfies row (eqCondition (js "email") (.string email)) = decide (IsOfEmail claims row) := by
  have hid : js "email" ≠ js "id" := by decide
  rw [Bool.eq_iff_iff, decide_eq_true_iff, eqCondition, satisfies_eq, fieldTitle, if_neg hid,
    IsOfEmail, hemail]
  simp

theorem wp_findBySubject {tableId : JsString}
    {post : Except Exception (Option NocoRecord) → World → Prop}
    (hfail : ∀ exception world', Unchanged world world' → post (.error exception) world')
    (hfound : ∀ world', Unchanged world world' →
      post (.ok (((world.rows tableId).rows.find? fun row => IsOfSubject claims row).map
        (flattenRecord none))) world') :
    wp (nocodb faults).contract (findBySubject tableId claims) post world := by
  rw [findBySubject, wp_bind, wp_ofExcept]
  cases hfilter : filterBoth (js "auth_provider") (.string claims.provider.text)
      (js "external_subject") (.string claims.subject) with
  | error exception => exact hfail exception world (Unchanged.refl world)
  | ok filter =>
      rw [onOk_ok]
      refine wp_findOne_find (selectRows_filterBoth hfilter) (fun _ => hfail _) ?_
      simp only [satisfies_isOfSubject]
      exact hfound

theorem wp_findByEmail {tableId : JsString}
    {post : Except Exception (Option NocoRecord) → World → Prop}
    (hrejected : ∀ email exception, claims.email.filter (· ≠ []) = some email →
      filterEqValue (js "email") (.string email) = .error exception →
      post (.error exception) world)
    (hfail : faults = true → ∀ world', Unchanged world world' → post (.error .upstream) world')
    (hfound : ∀ world', Unchanged world world' →
      post (.ok (((world.rows tableId).rows.find? fun row => IsOfEmail claims row).map
        (flattenRecord none))) world') :
    wp (nocodb faults).contract (findByEmail tableId claims) post world := by
  unfold findByEmail
  cases hemail : claims.email.filter (· ≠ []) with
  | none =>
      have hnone : (world.rows tableId).rows.find? (fun row => IsOfEmail claims row) = none := by
        rw [find_eq_none]
        intro row _
        rw [IsOfEmail, hemail]
        simp
      have hpost := hfound world (Unchanged.refl world)
      rw [hnone] at hpost
      exact hpost
  | some email =>
      simp only [wp_bind, wp_ofExcept]
      cases hfilter : filterEqValue (js "email") (.string email) with
      | error exception => exact hrejected email exception hemail hfilter
      | ok filter =>
          rw [onOk_ok]
          refine wp_findOne_find (selectRows_filterEqValue hfilter) hfail ?_
          simp only [satisfies_isOfEmail hemail]
          exact hfound

theorem findsTwoUsers_flattenRecord (row : Row) (other : Option Row) :
    findsTwoUsers (some (flattenRecord none row)) (other.map (flattenRecord none)) =
      .ok (other.any fun other => row.id ≠ other.id) := by
  cases other with
  | none => rfl
  | some other =>
      show Except.ok (decide (JsNumber.ofNat row.id ≠ .ofNat other.id)) = _
      simp

theorem findsTwoUsers_none (byEmail : Option NocoRecord) :
    findsTwoUsers none byEmail = .ok false := by
  cases byEmail <;> rfl

/-- What `upsertIdentityUser` does with the rows that its lookups found. -/
theorem wp_upsertLookedUp {first : World} {found : TableMeta} (hfirst : Unchanged first world)
    (hfound : resolve tablePrefix first.tables SystemTable.users.name = some found) :
    wp (nocodb faults).contract
      (upsertLookedUp found.id claims
        (((first.rows found.id).rows.find? fun row => IsOfSubject claims row).map
          (flattenRecord none))
        (((first.rows found.id).rows.find? fun row => IsOfEmail claims row).map
          (flattenRecord none)))
      (UpsertOutcome tablePrefix claims first) world := by
  have hrows : systemRows tablePrefix first .users = (first.rows found.id).rows :=
    systemRows_eq hfound
  unfold upsertLookedUp
  rw [wp_bind, wp_ofExcept]
  cases hsubject : (first.rows found.id).rows.find? fun row => IsOfSubject claims row with
  | some row =>
      rw [Option.map_some, findsTwoUsers_flattenRecord, onOk_ok]
      split
      · exact hfirst
      · next hsame =>
          -- the user of the subject is refreshed
          simp only [wp_bind, wp_ofExcept, extractNumericId_flattenRecord, onOk_ok]
          refine wp_update_changed hfirst hfound (of_find hsubject).1
            (fun _ _ h => h) fun world' hchanged => ?_
          refine .refreshed (hrows ▸ hsubject) ?_ hchanged
          intro other hother
          rw [hrows] at hother
          by_contra hne
          simp [hother, Ne.symm hne] at hsame
  | none =>
      cases hemail : (first.rows found.id).rows.find? fun row => IsOfEmail claims row with
      | some row =>
          -- the user of the email is linked to the subject
          rw [Option.map_none, Option.map_some, findsTwoUsers_none, onOk_ok]
          simp only [Bool.false_eq_true, if_false, wp_bind, wp_ofExcept, onOk_ok,
            extractNumericId_flattenRecord]
          refine wp_update_changed hfirst hfound (of_find hemail).1
            (fun _ _ h => h) fun world' hchanged => ?_
          exact .linked (hrows ▸ hsubject) (hrows ▸ hemail) hchanged
      | none =>
          rw [Option.map_none, findsTwoUsers_none, onOk_ok]
          simp only [Bool.false_eq_true, if_false, wp_bind]
          refine wp_create_changed hfirst hfound (fun _ _ h => h)
            fun row world' hcells hchanged => ?_
          exact .created (hrows ▸ hsubject) (hrows ▸ hemail) hcells hchanged

theorem wp_upsertIdentityUser :
    wp (nocodb faults).contract (upsertIdentityUser tablePrefix claims)
      (UpsertOutcome tablePrefix claims world) world := by
  rw [upsertIdentityUser]
  refine wp_requiredTable (Unchanged.refl world) (fun _ _ _ h => h)
    fun usersTable w₁ hfound h₁ => ?_
  rw [wp_bind]
  refine wp_findBySubject (fun _ _ h => h₁.trans h) fun w₂ h₂ => ?_
  rw [onOk_ok, wp_bind]
  refine wp_findByEmail (fun _ _ _ _ => h₁.trans h₂) (fun _ _ h => (h₁.trans h₂).trans h)
    fun w₃ h₃ => ?_
  rw [onOk_ok, h₂.rows, h₁.rows]
  exact wp_upsertLookedUp ((h₁.trans h₂).trans h₃) hfound

theorem wp_setUserStatus {userId : JsNumber} {isActive : Bool} :
    wp (nocodb faults).contract (setUserStatus tablePrefix userId isActive)
      (fun _ => StatusSet tablePrefix userId isActive world) world := by
  rw [setUserStatus]
  refine wp_requiredTable (Unchanged.refl world) (fun _ _ _ h => Or.inl h)
    fun usersTable w₁ hfound h₁ => ?_
  rw [wp_bind]
  refine wp_update_record h₁ hfound (fun _ _ h => Or.inl h) fun row w₂ hid hchanged => ?_
  exact Or.inr ⟨row, hid, hchanged⟩

end

end Auth
end NocoMiddleware
