import NocoMiddleware.Foundation.Invariant
import NocoMiddleware.Runs.AccountCalls

/-!
# Deactivated users

A user whose `is_active` is false stays so until `setUserStatus` activates it: creating
users and assigning roles only inserts rows, and the logins of an identity provider
overwrite other fields.  Both modes of `validate` reject the user until then.
-/

namespace NocoMiddleware
namespace Runs

open NocoMiddleware.Js NocoMiddleware.Filter NocoMiddleware.Tables NocoMiddleware.Store
open NocoMiddleware.Users NocoMiddleware.Auth NocoMiddleware.Foundation

/-- The user with the key has `is_active` false. -/
def Deactivated (tablePrefix : JsString) (key : Nat) (world : World) : Prop :=
  ∃ user ∈ systemRows tablePrefix world .users,
    user.id = key ∧ user.cell (js "is_active") = .boolean false

/-- The call does not activate the user with the key. -/
def LeavesInactive (key : Nat) (call : AccountCall) (_ : World) : Prop :=
  call ≠ .setUserStatus (.ofNat key) true

section

variable {tablePrefix : JsString} {key : Nat}

/-! ## Single changes -/

theorem deactivated_unchanged : Preserves Unchanged (Deactivated tablePrefix key) := by
  rintro world world' h ⟨user, huser, hdeactivated⟩
  exact ⟨user, by rwa [h.systemRows_eq], hdeactivated⟩

theorem deactivated_insert {table : SystemTable} {row : Row} :
    Preserves (Changed tablePrefix table (.insert row)) (Deactivated tablePrefix key) := by
  rintro world world' h ⟨user, huser, hdeactivated⟩
  exact ⟨user, h.mem_of_insert huser, hdeactivated⟩

/-- Overwriting a user keeps it deactivated if the payload leaves `is_active` alone, or
makes it false again. -/
theorem deactivated_patch {row : Row} {data : Payload} {world world' : World}
    (h : Changed tablePrefix .users (.patch row data) world world')
    (hdata : row.id = key → row.cell (js "is_active") = .boolean false →
      (row.patch data).cell (js "is_active") = .boolean false)
    (hdeactivated : Deactivated tablePrefix key world) : Deactivated tablePrefix key world' := by
  obtain ⟨user, huser, hkey, hinactive⟩ := hdeactivated
  have hmem := h.mem_patch huser
  by_cases hrow : user = row
  · rw [if_pos hrow] at hmem
    subst hrow
    exact ⟨user.patch data, hmem, hkey, hdata hkey hinactive⟩
  · rw [if_neg hrow] at hmem
    exact ⟨user, hmem, hkey, hinactive⟩

/-! ## Calls -/

/-- A login overwrites other fields of its user. -/
theorem deactivated_upserted {claims : NormalizedIdentityClaims} {world world' : World}
    {identity : ResolvedIdentity} (h : Upserted tablePrefix claims world world' identity)
    (hdeactivated : Deactivated tablePrefix key world) : Deactivated tablePrefix key world' := by
  cases h with
  | refreshed _ _ hchanged =>
      refine deactivated_patch hchanged (fun _ hinactive => ?_) hdeactivated
      rwa [cell_refreshed _ _ _ (by decide)]
  | linked _ _ hchanged =>
      refine deactivated_patch hchanged (fun _ hinactive => ?_) hdeactivated
      rwa [cell_linked _ _ _ (by decide)]
  | created _ _ _ hchanged => exact deactivated_insert _ _ hchanged hdeactivated

theorem deactivated_userUpserted :
    Preserves (UserUpserted tablePrefix) (Deactivated tablePrefix key) := by
  refine deactivated_unchanged.or ?_
  rintro world world' ⟨claims, identity, h⟩
  exact deactivated_upserted h

theorem deactivated_inserted (userId roleId : JsNumber) :
    Preserves (Inserted tablePrefix userId roleId) (Deactivated tablePrefix key) := by
  rintro world world' ⟨-, row, -, -, hchanged⟩
  exact deactivated_insert _ _ hchanged

theorem deactivated_userCreated :
    Preserves (UserCreated tablePrefix) (Deactivated tablePrefix key) := by
  refine deactivated_unchanged.or ?_
  rintro world world' ⟨row, middle, ⟨-, -, hchanged⟩, hroles⟩ hdeactivated
  have hquiet : Preserves (AssignedQuietly tablePrefix (.ofNat row.id))
      (Deactivated tablePrefix key) :=
    (deactivated_unchanged.or (Preserves.exists_index (deactivated_inserted _))).reflTransGen
  exact hquiet _ _ hroles (deactivated_insert _ _ hchanged hdeactivated)

theorem deactivated_bootstrapped (dto : BootstrapAdminDto) :
    Preserves (Bootstrapped tablePrefix dto) (Deactivated tablePrefix key) := by
  refine deactivated_unchanged.or (Preserves.or ?_ ?_)
  · rintro world world' ⟨user, -, -, role, -, -, hinserted⟩
    exact deactivated_inserted _ _ _ _ hinserted
  · rintro world world' ⟨user, middle, ⟨-, -, hchanged⟩, hrest⟩ hdeactivated
    have hmiddle := deactivated_insert _ _ hchanged hdeactivated
    rcases hrest with hunchanged | ⟨row, roleId, -, -, hassigned⟩
    · exact deactivated_unchanged _ _ hunchanged hmiddle
    · exact deactivated_insert _ _ hassigned hmiddle

/-- `setUserStatus` of another user, or one that deactivates. -/
theorem deactivated_statusSet {userId : JsNumber} {isActive : Bool}
    (hstatus : userId = .ofNat key → isActive = false) :
    Preserves (StatusSet tablePrefix userId isActive) (Deactivated tablePrefix key) := by
  refine deactivated_unchanged.or ?_
  rintro world world' ⟨row, rfl, hchanged⟩
  refine deactivated_patch hchanged fun hkey _ => ?_
  rw [hstatus (by rw [hkey]), Row.cell_patch _ (by decide) (by decide)]
  rfl

/-- The calls but an activation keep the user deactivated. -/
theorem deactivated_accountStep :
    Preserves (AccountStep tablePrefix (LeavesInactive key)) (Deactivated tablePrefix key) := by
  rintro world world' ⟨call, exception, hcondition, hends⟩
  have heffect := AccountCall.effect_of_ends hends
  cases call with
  | validate provider payload => exact deactivated_userUpserted _ _ heffect
  | upsertIdentityUser claims => exact deactivated_userUpserted _ _ heffect
  | createLocalUser dto => exact deactivated_userCreated _ _ heffect
  | bootstrapAdmin configuredToken dto bootstrapToken =>
      exact deactivated_bootstrapped dto _ _ heffect
  | setUserStatus userId isActive =>
      refine deactivated_statusSet (fun huser => ?_) _ _ heffect
      subst huser
      cases isActive with
      | false => rfl
      | true => exact absurd rfl hcondition

/-! ## Logins -/

/-- Neither mode of `validate` admits a deactivated user. -/
theorem unauthorized_of_resolves {claims : NormalizedIdentityClaims} {world world' : World}
    {resolution : Resolution} (hdeactivated : Deactivated tablePrefix key world)
    (hresolves : Resolves tablePrefix claims world (.ok resolution) world')
    (hkey : resolution.IsOf key) :
    ∃ message, acceptUser claims resolution = .error (.unauthorized message) := by
  obtain ⟨user, huser, hid, hinactive⟩ := hdeactivated
  have hrecord : (flattenRecord none user).get (js "is_active") = .boolean false := by
    rw [get_flattenRecord (by decide) (by decide), hinactive]
  cases resolution with
  | localUser userId record =>
      obtain ⟨rfl, -⟩ := hkey
      obtain ⟨-, rfl⟩ := hresolves
      -- the lookup by the key of the local token finds the deactivated user
      have hfind : (systemRows tablePrefix world .users).find?
          (fun row => JsNumber.ofNat key = .ofNat row.id) = some user :=
        find_systemRows huser fun other => by rw [JsNumber.ofNat_inj, hid, eq_comm]
      refine ⟨js "User is inactive or missing", ?_⟩
      rw [hfind, Option.map_some, acceptUser, if_pos hrecord]
  | external identity =>
      -- neither a refresh nor a link writes the status, and a created user has a new key
      have hactive : identity.active = false := by
        cases hresolves with
        | @refreshed row hsubject hemail hchanged =>
            obtain rfl : row = user := eq_of_mem_systemRows hchanged.mem_of_patch huser
              ((JsNumber.ofNat_inj.mp hkey).trans hid.symm)
            refine active_identityOf claims ?_
            rwa [cell_refreshed _ _ _ (by decide)]
        | @linked row hsubject hemail hchanged =>
            obtain rfl : row = user := eq_of_mem_systemRows hchanged.mem_of_patch huser
              ((JsNumber.ofNat_inj.mp hkey).trans hid.symm)
            refine active_identityOf claims ?_
            rwa [cell_linked _ _ _ (by decide)]
        | @created row hsubject hemail hcells hchanged =>
            have hnew : user.id ≠ row.id := hchanged.id_ne_of_insert huser
            exact absurd (hid.trans (JsNumber.ofNat_inj.mp hkey).symm) hnew
      refine ⟨js "User is inactive", ?_⟩
      rw [acceptUser, hactive]
      rfl

/-- Once a user is deactivated it stays so over every run of calls without its activation,
and then every `validate` that resolves to it is rejected and none admits it. -/
theorem deactivation_sticks (tablePrefix : JsString) (key : Nat) {first world : World}
    (hfirst : Deactivated tablePrefix key first)
    (hrun : Relation.ReflTransGen (AccountStep tablePrefix (LeavesInactive key)) first world) :
    Deactivated tablePrefix key world ∧
      ∀ provider payload result world',
        (ValidatesAs tablePrefix provider payload key world result world' →
          ∃ message, result = .error (.unauthorized message)) ∧
        (Exec (nocodb true).contract (validate tablePrefix provider payload) world result world' →
          ∀ user, result = .ok user → user.userId ≠ .ofNat key) := by
  have hdeactivated := deactivated_accountStep.reflTransGen _ _ hrun hfirst
  have hrejected : ∀ {provider payload result world'},
      ValidatesAs tablePrefix provider payload key world result world' →
        ∃ message, result = .error (.unauthorized message) := by
    intro provider payload result world' hvalidates
    obtain ⟨claims, resolution, -, hresolve, hkey, rfl⟩ := hvalidates
    exact unauthorized_of_resolves hdeactivated (wp_sound wp_resolveUser hresolve) hkey
  refine ⟨hdeactivated, fun provider payload result world' => ⟨hrejected, ?_⟩⟩
  rintro hexec user rfl huser
  obtain ⟨message, hmessage⟩ := hrejected (validatesAs_of_exec hexec huser)
  contradiction

end

/-- User 7 is deactivated and has an email. -/
def annInactive : World :=
  .holding []
    [(js "users", .ofRows
      [.ofCells 7 [(js "username", .string (js "ann")),
        (js "email", .string (js "ann@example.com")), (js "is_active", .boolean false)]])]

theorem deactivation_sticks_ann :
    ∃ world, (AccountCall.validate .externalJwt (tokenOf (js "s1") (js "ann@example.com"))).Ends []
        annInactive (some (.unauthorized (js "User is inactive"))) world ∧
      Deactivated [] 7 world ∧
      ∀ provider payload result world',
        (ValidatesAs [] provider payload 7 world result world' →
          ∃ message, result = .error (.unauthorized message)) ∧
        (Exec (nocodb true).contract (validate [] provider payload) world result world' →
          ∀ user, result = .ok user → user.userId ≠ .ofNat 7) := by
  have hfirst : Deactivated [] 7 annInactive := ⟨_, List.mem_singleton_self _, rfl, rfl⟩
  have hends :
      (AccountCall.validate .externalJwt (tokenOf (js "s1") (js "ann@example.com"))).Ends []
      annInactive (some (.unauthorized (js "User is inactive")))
      (settle true (validate [] .externalJwt (tokenOf (js "s1") (js "ann@example.com"))) (prompt 4)
        annInactive) := finishes_of_run (by decide +kernel)
  have hstep : AccountStep [] (LeavesInactive 7) annInactive _ := ⟨.validate _ _, _, nofun, hends⟩
  exact ⟨_, hends, deactivation_sticks [] 7 hfirst (.single hstep)⟩

end Runs
end NocoMiddleware
