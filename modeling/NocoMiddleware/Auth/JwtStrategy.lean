import NocoMiddleware.Auth.IdentityUpsert

/-!
# `JwtStrategy.validate`

The token is checked by the library before `validate` runs.  `validate` resolves the user
of the payload, by its id with the local provider and by `upsertIdentityUser` with the
external one, and then admits an active user.
-/

namespace NocoMiddleware
namespace Auth

open NocoMiddleware.Js NocoMiddleware.Filter NocoMiddleware.Tables NocoMiddleware.Store
open NocoMiddleware.Foundation

/-- What `validate` puts on the request. -/
structure AuthenticatedUser where
  userId : JsNumber
  username : JsValue
  email : JsValue
  roles : List JsString
  scope : List JsString
  deriving DecidableEq

/-- What the lookups of `validate` end with: the record of a user id, or an identity. -/
inductive Resolution where
  | localUser (userId : JsNumber) (user : Option NocoRecord)
  | external (identity : ResolvedIdentity)

/-- The lookups with the local provider. -/
def resolveLocal (tablePrefix : JsString) (claims : NormalizedIdentityClaims) :
    Service Resolution := do
  let userId := stringToNumber claims.subject
  if userId.isInteger && userId.isPositive then
    let usersTable ← getTableByName tablePrefix SystemTable.users.name
    match usersTable with
    | none => throw (.unauthorized (js "Users table is unavailable"))
    | some usersTable =>
        let user ← read usersTable.id userId
        return .localUser userId user
  else throw (.unauthorized (js "Token payload contains invalid sub"))

/-- `resolveIdentity` of the external provider. -/
def resolveIdentity (tablePrefix : JsString) (claims : NormalizedIdentityClaims) :
    Service ResolvedIdentity :=
  upsertIdentityUser tablePrefix { claims with provider := .externalJwt }

/-- The lookups with a provider. -/
def resolveUser (tablePrefix : JsString) (provider : AuthProvider)
    (claims : NormalizedIdentityClaims) : Service Resolution :=
  match provider with
  | .localNocodb => resolveLocal tablePrefix claims
  | .externalJwt => do
      let identity ← resolveIdentity tablePrefix claims
      return .external identity

/-- The check of the resolved user, and what is put on the request. -/
def acceptUser (claims : NormalizedIdentityClaims) : Resolution → Except Exception AuthenticatedUser
  | .localUser _ none => .error (.unauthorized (js "User is inactive or missing"))
  | .localUser userId (some user) =>
      if user.get (js "is_active") = .boolean false then
        .error (.unauthorized (js "User is inactive or missing"))
      else
        .ok {
          userId := userId
          username := (user.get (js "username")).orElse
            ((optionValue claims.username).orElse (.string (js "unknown")))
          email := (user.get (js "email")).orElse (optionValue claims.email)
          roles := claims.roles
          scope := claims.scope }
  | .external identity =>
      if identity.active then
        .ok ⟨identity.userId, identity.username, identity.email, identity.roles, claims.scope⟩
      else .error (.unauthorized (js "User is inactive"))

/-- `validate`. -/
def validate (tablePrefix : JsString) (provider : AuthProvider) (payload : TokenPayload) :
    Service AuthenticatedUser := do
  let claims ← Program.ofExcept (normalize payload provider)
  let resolution ← resolveUser tablePrefix provider claims
  Program.ofExcept (acceptUser claims resolution)

/-! ## What `validate` resolves to -/

/-- The lookups end with the row of a key. -/
def Resolution.IsOf (key : Nat) : Resolution → Prop
  | .localUser userId user => userId = .ofNat key ∧ user ≠ none
  | .external identity => identity.userId = .ofNat key

/-- An execution of `validate` whose lookups resolve to the row of a key. -/
def ValidatesAs (tablePrefix : JsString) (provider : AuthProvider) (payload : TokenPayload)
    (key : Nat) (world : World) (result : Except Exception AuthenticatedUser) (world' : World) :
    Prop :=
  ∃ claims resolution, normalize payload provider = .ok claims ∧
    Exec (nocodb true).contract (resolveUser tablePrefix provider claims) world (.ok resolution)
      world' ∧
    resolution.IsOf key ∧ result = acceptUser claims resolution

/-- What the lookups of `validate` do: with the external provider they upsert a user. -/
def Resolves (tablePrefix : JsString) (claims : NormalizedIdentityClaims) (world : World) :
    Except Exception Resolution → World → Prop
  | .ok (.localUser userId user), world' =>
      Unchanged world world' ∧
        user = ((systemRows tablePrefix world .users).find? fun row =>
          userId = .ofNat row.id).map (flattenRecord none)
  | .ok (.external identity), world' =>
      Upserted tablePrefix { claims with provider := .externalJwt } world world' identity
  | .error _, world' => Unchanged world world'

section

variable {faults : Bool} {tablePrefix : JsString} {claims : NormalizedIdentityClaims}
  {world : World}

theorem wp_resolveLocal :
    wp (nocodb faults).contract (resolveLocal tablePrefix claims)
      (Resolves tablePrefix claims world) world := by
  unfold resolveLocal
  dsimp only
  split
  · rw [wp_bind]
    refine wp_getTableByName (fun _ _ h => h) fun w₁ h₁ => ?_
    rw [onOk_ok]
    cases hfound : resolve tablePrefix world.tables SystemTable.users.name with
    | none => exact h₁
    | some usersTable =>
        simp only [wp_bind]
        refine wp_read_find (fun _ _ h => h₁.trans h) fun w₂ h₂ => ?_
        rw [onOk_ok, h₁.rows]
        exact ⟨h₁.trans h₂, by rw [systemRows_eq hfound]; rfl⟩
  · exact Unchanged.refl world

theorem wp_resolveUser {provider : AuthProvider} :
    wp (nocodb faults).contract (resolveUser tablePrefix provider claims)
      (Resolves tablePrefix claims world) world := by
  cases provider with
  | localNocodb => exact wp_resolveLocal
  | externalJwt =>
      show wp _ (resolveIdentity tablePrefix claims >>= _) _ world
      rw [wp_bind, resolveIdentity]
      refine wp_mono wp_upsertIdentityUser fun result world' houtcome => ?_
      cases result with
      | ok identity => exact houtcome
      | error exception => exact houtcome

/-- An execution of `validate` is one of its lookups, and admits what they resolve to. -/
theorem exec_validate {provider : AuthProvider} {payload : TokenPayload}
    {result : Except Exception AuthenticatedUser} {world' : World}
    (h : Exec (nocodb faults).contract (validate tablePrefix provider payload) world result
      world') :
    (∃ exception, result = .error exception ∧ world' = world) ∨
      ∃ claims outcome, normalize payload provider = .ok claims ∧
        Exec (nocodb faults).contract (resolveUser tablePrefix provider claims) world outcome
          world' ∧
        result = outcome.bind (acceptUser claims) := by
  rw [validate] at h
  cases hclaims : normalize payload provider with
  | error exception =>
      rw [hclaims] at h
      cases h
      exact Or.inl ⟨exception, rfl, rfl⟩
  | ok claims =>
      rw [hclaims] at h
      have hrest : Exec (nocodb faults).contract (resolveUser tablePrefix provider claims >>=
          fun resolution => Program.ofExcept (acceptUser claims resolution)) world result
          world' := h
      obtain ⟨outcome, middle, hresolve, haccept⟩ := exec_bind hrest
      refine Or.inr ⟨claims, outcome, rfl, ?_⟩
      cases outcome with
      | ok resolution =>
          cases haccept
          exact ⟨hresolve, rfl⟩
      | error exception =>
          obtain ⟨rfl, rfl⟩ := haccept
          exact ⟨hresolve, rfl⟩

/-- Who is admitted is the user that the lookups resolve to. -/
theorem isOf_of_acceptUser {resolution : Resolution} {user : AuthenticatedUser} {key : Nat}
    (h : acceptUser claims resolution = .ok user) (hkey : user.userId = .ofNat key) :
    resolution.IsOf key := by
  cases resolution with
  | localUser userId record =>
      cases record with
      | none => contradiction
      | some record =>
          rw [acceptUser] at h
          split at h
          · contradiction
          · obtain rfl := Except.ok.inj h
            exact ⟨hkey, nofun⟩
  | external identity =>
      rw [acceptUser] at h
      split at h
      · obtain rfl := Except.ok.inj h
        exact hkey
      · contradiction

/-- An admitted user is one that the lookups resolve to. -/
theorem validatesAs_of_exec {provider : AuthProvider} {payload : TokenPayload} {key : Nat}
    {user : AuthenticatedUser} {world' : World}
    (h : Exec (nocodb true).contract (validate tablePrefix provider payload) world (.ok user)
      world')
    (hkey : user.userId = .ofNat key) :
    ValidatesAs tablePrefix provider payload key world (.ok user) world' := by
  rcases exec_validate h with ⟨_, hresult, -⟩ | ⟨claims, outcome, hclaims, hresolve, hresult⟩
  · contradiction
  · cases outcome with
    | error exception => contradiction
    | ok resolution =>
        have haccept : acceptUser claims resolution = .ok user := hresult.symm
        exact ⟨claims, resolution, hclaims, hresolve, isOf_of_acceptUser haccept hkey, haccept.symm⟩

end

end Auth
end NocoMiddleware
