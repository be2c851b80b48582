import NocoMiddleware.Runs.AccountUniqueness

/-!
# Unique names of local users

`createLocalUser` looks for the trimmed name of the dto and stores the name untrimmed.  A
name with white space around it is therefore never found again.  Names stay unique as long
as every call is refused by its lookups or stores a name that no user has.
-/

namespace NocoMiddleware
namespace Runs

open NocoMiddleware.Js NocoMiddleware.Filter NocoMiddleware.Tables NocoMiddleware.Store
open NocoMiddleware.Users NocoMiddleware.Auth NocoMiddleware.Foundation

/-- The name of a user. -/
def usernameKey (row : Row) : Option JsString :=
  match row.cell (js "username") with
  | .string username => some username
  | _ => none

/-- No two users share a name. -/
def UniqueUsernames (tablePrefix : JsString) (world : World) : Prop :=
  UniqueKeys usernameKey (systemRows tablePrefix world .users)

/-- A call of `createLocalUser` that is refused or stores a name that no user has. -/
def StoresFreshName (tablePrefix : JsString) : AccountCall → World → Prop
  | .createLocalUser dto, world =>
      IsRefused tablePrefix dto world ∨
        ∀ other ∈ systemRows tablePrefix world .users, usernameKey other ≠ some dto.username
  | _, _ => False

section

variable {tablePrefix : JsString} {world world' : World}

theorem usernameKey_eq_some_iff (row : Row) (username : JsString) :
    usernameKey row = some username ↔ row.cell (js "username") = .string username := by
  unfold usernameKey
  split
  · next stored hcell => rw [hcell, Option.some.injEq, JsValue.string.injEq]
  · next hcell => exact iff_of_false (by simp) (hcell username)

theorem usernameKey_local {dto : ProvisionUserDto} {passwordHash : JsString} {row : Row}
    (hcells : row.cells = toCells (localUserData dto passwordHash)) :
    usernameKey row = some dto.username := by
  apply (usernameKey_eq_some_iff _ _).mpr
  exact (Row.cell_of_cells hcells (by decide)).trans rfl

theorem usernameKey_assignment {userId roleId : JsNumber} {assignedAt : JsString} {row : Row}
    (hcells : row.cells = toCells (assignmentData userId roleId assignedAt)) :
    usernameKey row = none := by
  have hkeys : ((assignmentData userId roleId assignedAt).map Prod.fst).Nodup := by
    show [js "user_id", js "role_id", js "assigned_at"].Nodup
    decide
  unfold usernameKey
  rw [Row.cell_of_toCells hcells hkeys (by decide)]
  rfl

/-- A name without white space around it is fresh, or the call is refused. -/
theorem storesFreshName_of_trimmed {dto : ProvisionUserDto}
    (htrim : trim dto.username = dto.username) (world : World) :
    StoresFreshName tablePrefix (.createLocalUser dto) world := by
  by_cases htaken : ∃ other ∈ systemRows tablePrefix world .users,
      usernameKey other = some dto.username
  · obtain ⟨other, hother, hkey⟩ := htaken
    rw [usernameKey_eq_some_iff, ← htrim] at hkey
    exact Or.inl (Or.inr (Or.inr ⟨other, hother, Or.inl hkey⟩))
  · exact Or.inr fun other hother hkey => htaken ⟨other, hother, hkey⟩

/-! ## Single changes -/

theorem uniqueUsernames_unchanged : Preserves Unchanged (UniqueUsernames tablePrefix) := by
  intro world world' h hunique
  unfold UniqueUsernames
  rw [h.systemRows_eq]
  exact hunique

/-- Inserting a row whose name no user has, into any table. -/
theorem uniqueUsernames_insert {table : SystemTable} {row : Row}
    (h : Changed tablePrefix table (.insert row) world world')
    (hfresh : ∀ username, usernameKey row = some username →
      ∀ other ∈ systemRows tablePrefix world .users, usernameKey other ≠ some username)
    (hunique : UniqueUsernames tablePrefix world) : UniqueUsernames tablePrefix world' := by
  unfold UniqueUsernames at hunique ⊢
  rcases h.applies_or_eq .users with heq | ⟨before, after, hbefore, hafter, hnew, rfl⟩
  · rw [heq]
    exact hunique
  · rw [hbefore] at hunique hfresh
    rw [hafter, Table.rows_insert]
    exact hunique.append_singleton hfresh

theorem uniqueUsernames_rolesGiven (userId : JsNumber) :
    Preserves (RolesGiven tablePrefix userId) (UniqueUsernames tablePrefix) := by
  apply Preserves.reflTransGen
  apply uniqueUsernames_unchanged.or
  rintro world world' ⟨roleId, assignedAt, row, -, -, -, hcells, hchanged⟩
  apply uniqueUsernames_insert hchanged
  intro username hkey
  rw [usernameKey_assignment hcells] at hkey
  contradiction

/-- A created user was not refused, so its name is fresh. -/
theorem uniqueUsernames_localUserCreated {dto : ProvisionUserDto}
    (hcondition : StoresFreshName tablePrefix (.createLocalUser dto) world)
    (h : LocalUserCreated tablePrefix dto world world')
    (hunique : UniqueUsernames tablePrefix world) : UniqueUsernames tablePrefix world' := by
  obtain ⟨row, passwordHash, middle, hcells, hchanged, hroles⟩ := h.2.2
  have hfresh := hcondition.resolve_left (not_isRefused_of_created h)
  apply uniqueUsernames_rolesGiven _ _ _ hroles
  apply uniqueUsernames_insert hchanged _ hunique
  intro username hkey
  rw [usernameKey_local hcells] at hkey
  obtain rfl := Option.some.inj hkey
  exact hfresh

/-- One call that meets the condition keeps the names unique, also when it fails. -/
theorem uniqueUsernames_accountStep :
    Preserves (AccountStep tablePrefix (StoresFreshName tablePrefix))
      (UniqueUsernames tablePrefix) := by
  rintro world world' ⟨call, exception, hcondition, hends⟩ hunique
  cases call with
  | createLocalUser dto =>
      obtain ⟨result, hexec, -⟩ := hends
      have houtcome := wp_sound wp_createLocalUser_outcome hexec
      rcases unchanged_or_created houtcome with hunchanged | hcreated
      · exact uniqueUsernames_unchanged _ _ hunchanged hunique
      · exact uniqueUsernames_localUserCreated hcondition hcreated hunique
  | upsertIdentityUser claims => exact hcondition.elim
  | validate provider payload => exact hcondition.elim
  | bootstrapAdmin configuredToken dto bootstrapToken => exact hcondition.elim
  | setUserStatus userId isActive => exact hcondition.elim

end

/-- The names of users stay unique over every sequential run of `createLocalUser` in which no
call stores a name that a user has. -/
theorem usernames_unique_of_run (tablePrefix : JsString) {first world : World}
    (hfirst : UniqueUsernames tablePrefix first)
    (hrun : Relation.ReflTransGen
      (AccountStep tablePrefix (StoresFreshName tablePrefix)) first world) :
    UniqueUsernames tablePrefix world :=
  uniqueUsernames_accountStep.reflTransGen _ _ hrun hfirst

/-- Ann is created in an empty table. -/
theorem usernames_unique_ann :
    ∃ world, (AccountCall.createLocalUser (localUser (js "ann") (js "ann@x.org"))).Ends []
        (.holding [] []) none world ∧ UniqueUsernames [] world := by
  have hends : (AccountCall.createLocalUser (localUser (js "ann") (js "ann@x.org"))).Ends []
      (.holding [] []) none
      (settle true (createLocalUser [] (localUser (js "ann") (js "ann@x.org"))) (prompt 5)
        (.holding [] [])) := finishes_of_run (by decide +kernel)
  have hfirst : UniqueUsernames [] (.holding [] []) := fun _ row hrow => by cases hrow
  have hcondition : StoresFreshName []
      (.createLocalUser (localUser (js "ann") (js "ann@x.org"))) (.holding [] []) :=
    storesFreshName_of_trimmed (by decide) _
  exact ⟨_, hends, usernames_unique_of_run [] hfirst (.single ⟨_, _, hcondition, hends⟩)⟩

/-- The world after a local user with a leading space in its name was created. -/
def spacedAlice : World :=
  settle true (createLocalUser [] (localUser (js " alice") (js "alice@x.org"))) (prompt 5)
    (.holding [] [])

/-- The name with the leading space is given a second time. -/
theorem username_given_twice :
    UniqueUsernames [] (.holding [] []) ∧ 3 ≤ (js " alice").length ∧
      12 ≤ (localUser (js " alice") (js "alice@x.org")).password.length ∧
      (AccountCall.createLocalUser (localUser (js " alice") (js "alice@x.org"))).Ends []
        (.holding [] []) none spacedAlice ∧
      ∃ world,
        (AccountCall.createLocalUser (localUser (js " alice") (js "other@x.org"))).Ends []
          spacedAlice none world ∧ ¬ UniqueUsernames [] world := by
  have hfirst : UniqueUsernames [] (.holding [] []) := fun _ row hrow => by cases hrow
  have hends : (AccountCall.createLocalUser (localUser (js " alice") (js "alice@x.org"))).Ends []
      (.holding [] []) none spacedAlice := finishes_of_run (by decide +kernel)
  have hagain : (AccountCall.createLocalUser (localUser (js " alice") (js "other@x.org"))).Ends []
      spacedAlice none
      (settle true (createLocalUser [] (localUser (js " alice") (js "other@x.org")))
        (List.replicate 5 ⟨false, 10, [], 0⟩) spacedAlice) := finishes_of_run (by decide +kernel)
  have hshared : ∃ row ∈ systemRows [] (settle true
        (createLocalUser [] (localUser (js " alice") (js "other@x.org")))
        (List.replicate 5 ⟨false, 10, [], 0⟩) spacedAlice) .users,
      ∃ other ∈ systemRows [] (settle true
        (createLocalUser [] (localUser (js " alice") (js "other@x.org")))
        (List.replicate 5 ⟨false, 10, [], 0⟩) spacedAlice) .users,
        row ≠ other ∧ usernameKey row = some (js " alice") ∧
          usernameKey other = some (js " alice") := by
    decide +kernel
  obtain ⟨row, hrow, other, hother, hne, hkey, hsame⟩ := hshared
  refine ⟨hfirst, by decide, by decide, hends, _, hagain, fun hunique => ?_⟩
  exact hne (hunique _ row hrow other hother hkey hsame)

end Runs
end NocoMiddleware
