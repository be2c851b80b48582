import NocoMiddleware.Permissions.Grants

/-!
# `RolesService`

`createRole`, `findRoleByName` and `deleteRole`, and what they change.  Deleting a
role clears the cache; creating one does not.
-/

namespace NocoMiddleware
namespace Roles

open NocoMiddleware.Js NocoMiddleware.Filter NocoMiddleware.Tables NocoMiddleware.Store
open NocoMiddleware.Foundation

/-- `CreateRoleDto`. -/
structure CreateRoleDto where
  roleName : JsString
  description : Option JsString
  isSystemRole : Option Bool
  deriving DecidableEq

/-- `/^[a-zA-Z0-9_-]+(?: [a-zA-Z0-9_-]+)*$/` -/
def roleNamePattern : Pattern CodeUnit :=
  .andThen (.oneOrMore (.symbol isFieldUnit))
    (.many (.andThen (.literal (js " ")) (.oneOrMore (.symbol isFieldUnit))))

/-- Words of letters, digits, `_` and `-` with single spaces between them. -/
structure SpacedWords (name : JsString) : Prop where
  ne_nil : name ≠ []
  head : ∀ unit ∈ name.head?, isFieldUnit unit = true
  last : ∀ unit ∈ name.getLast?, isFieldUnit unit = true
  units : ∀ unit ∈ name, isFieldUnit unit = true ∨ unit = 32

namespace SpacedWords

theorem of_word {word : JsString} (hne : word ≠ [])
    (h : ∀ unit ∈ word, isFieldUnit unit = true) : SpacedWords word where
  ne_nil := hne
  head unit hunit := h unit (List.mem_of_mem_head? hunit)
  last unit hunit := h unit (List.mem_of_mem_getLast? hunit)
  units unit hunit := Or.inl (h unit hunit)

/-- One more word after a space. -/
theorem append_word {name word : JsString} (h : SpacedWords name) (hne : word ≠ [])
    (hword : ∀ unit ∈ word, isFieldUnit unit = true) :
    SpacedWords (name ++ (js " " ++ word)) where
  ne_nil := by simp [h.ne_nil]
  head unit hunit := by
    rw [List.head?_append_of_ne_nil _ h.ne_nil] at hunit
    exact h.head unit hunit
  last unit hunit := by
    rw [← List.append_assoc, List.getLast?_append_of_ne_nil _ hne] at hunit
    exact hword unit (List.mem_of_mem_getLast? hunit)
  units unit hunit := by
    rcases List.mem_append.mp hunit with hunit | hunit
    · exact h.units unit hunit
    · rcases List.mem_append.mp hunit with hunit | hunit
      · exact Or.inr (by simpa [js] using hunit)
      · exact Or.inl (hword unit hunit)

theorem append_words {name : JsString} {parts : List JsString} (h : SpacedWords name)
    (hparts : ∀ part ∈ parts, part ∈ (Pattern.andThen (.literal (js " "))
      (.oneOrMore (.symbol isFieldUnit))).language) :
    SpacedWords (name ++ parts.flatten) := by
  induction parts generalizing name with
  | nil => simpa using h
  | cons part parts ih =>
      obtain ⟨hpart, hlater⟩ := List.forall_mem_cons.mp hparts
      obtain ⟨space, hspace, word, hword, rfl⟩ := (Pattern.mem_language_andThen _ _ _).mp hpart
      obtain rfl : space = js " " := (Pattern.mem_language_literal _ _).mp hspace
      obtain ⟨hne, hunits⟩ := (Pattern.mem_language_oneOrMore_symbol _ _).mp hword
      have hnext := ih (h.append_word hne hunits) hlater
      rwa [List.append_assoc, ← List.flatten_cons] at hnext

/-- Trimming does nothing to spaced words. -/
theorem trim_eq {name : JsString} (h : SpacedWords name) : trim name = name := by
  have hspace : ∀ unit, isFieldUnit unit = true → isWhiteSpace unit = false := by
    intro unit hunit
    simp only [isFieldUnit, isDigit, Bool.or_eq_true, Bool.and_eq_true,
      decide_eq_true_eq] at hunit
    simp only [isWhiteSpace, Bool.or_eq_false_iff, Bool.and_eq_false_iff,
      decide_eq_false_iff_not]
    omega
  exact trim_eq_self (fun unit hunit => hspace unit (h.head unit hunit))
    (fun unit hunit => hspace unit (h.last unit hunit))

end SpacedWords

theorem spacedWords_of_roleNamePattern {name : JsString}
    (h : roleNamePattern.test name = true) : SpacedWords name := by
  rw [Pattern.test_iff, roleNamePattern, Pattern.mem_language_andThen] at h
  obtain ⟨first, hfirst, rest, hrest, rfl⟩ := h
  obtain ⟨hne, hunits⟩ := (Pattern.mem_language_oneOrMore_symbol _ _).mp hfirst
  obtain ⟨parts, rfl, hparts⟩ := (Pattern.mem_language_many _ _).mp hrest
  exact (SpacedWords.of_word hne hunits).append_words hparts

/-- The fields of a new role. -/
def roleData (dto : CreateRoleDto) : Payload :=
  [(js "role_name", .string dto.roleName),
    (js "description", .string (dto.description.getD [])),
    (js "is_system_role", .boolean (dto.isSystemRole.getD false))]

section

variable (tablePrefix : JsString)

/-- `findRoleByName`. -/
def findRoleByName (roleName : JsString) : Service (Option NocoRecord) :=
  if roleNamePattern.test roleName then do
    let rolesTable ← getTableByName tablePrefix SystemTable.roles.name
    match rolesTable with
    | none => return none
    | some rolesTable =>
        let filter ← Program.ofExcept (filterEqValue (js "role_name") (.string roleName))
        findOne rolesTable.id filter
  else
    throw (.badRequest (js "Role name contains invalid characters. Only alphanumeric characters, spaces, underscores, and hyphens are allowed."))

/-- `createRole`. -/
def createRole (dto : CreateRoleDto) : Service NocoRecord := do
  let rolesTable ← getTableByName tablePrefix SystemTable.roles.name
  match rolesTable with
  | none => throw (.notFound (js "Roles table not found"))
  | some rolesTable =>
      let existingRole ← findRoleByName tablePrefix dto.roleName
      match existingRole with
      | some _ => throw (.conflict (js "Role \"" ++ dto.roleName ++ js "\" already exists"))
      | none => create rolesTable.id (roleData dto)

/-- `deleteRole`. -/
def deleteRole (roleId : JsNumber) : Service Unit := do
  let rolesTable ← getTableByName tablePrefix SystemTable.roles.name
  match rolesTable with
  | none => throw (.notFound (js "Roles table not found"))
  | some rolesTable =>
      delete rolesTable.id roleId
      clearCache none

end

/-! ## What the calls change -/

section

variable {faults : Bool} {tablePrefix : JsString}

theorem wp_findRoleByName {world : World} {roleName : JsString} :
    wp (nocodb faults).contract (findRoleByName tablePrefix roleName)
      (fun _ => Unchanged world) world := by
  unfold findRoleByName
  split
  · rw [wp_bind]
    refine wp_getTableByName (fun _ _ h => h) fun w₁ h₁ => ?_
    rw [onOk_ok]
    cases hfound : resolve tablePrefix world.tables SystemTable.roles.name with
    | none => exact h₁
    | some rolesTable =>
        simp only [wp_bind, wp_ofExcept]
        cases hfilter : filterEqValue (js "role_name") (.string roleName) with
        | error exception => exact h₁
        | ok filter =>
            rw [onOk_ok]
            refine wp_findOne (selectRows_filterEqValue hfilter) (fun _ => Iff.rfl)
              (fun _ _ h => h₁.trans h) ?_ ?_
            · exact fun _ w₂ h₂ => h₁.trans h₂
            · exact fun _ _ _ w₂ h₂ => h₁.trans h₂
  · exact Unchanged.refl world

/-- `createRole` inserts a row with the fields of its dto and returns it, or changes
nothing. -/
theorem wp_createRole_inserted {world : World} {dto : CreateRoleDto} :
    wp (nocodb faults).contract (createRole tablePrefix dto)
      (byOutcome
        (fun world' => ∃ row, row.cells = toCells (roleData dto) ∧
          Changed tablePrefix .roles (.insert row) world world')
        (Unchanged world)) world := by
  rw [createRole, wp_bind]
  refine wp_getTableByName (fun _ _ h => h) fun w₁ h₁ => ?_
  rw [onOk_ok]
  cases hfound : resolve tablePrefix world.tables SystemTable.roles.name with
  | none => exact h₁
  | some rolesTable =>
      rw [wp_bind]
      refine wp_mono wp_findRoleByName fun existingRole w₂ h₂ => ?_
      have h := h₁.trans h₂
      cases existingRole with
      | error exception => exact h
      | ok existingRole =>
          cases existingRole with
          | some record => exact h
          | none =>
              rw [onOk_ok]
              refine wp_create_changed h hfound (fun _ _ h' => h') ?_
              exact fun row w₃ hcells hchanged => ⟨row, hcells, hchanged⟩

/-- `createRole` inserts a role, or changes nothing. -/
theorem wp_createRole {world : World} {dto : CreateRoleDto} :
    wp (nocodb faults).contract (createRole tablePrefix dto)
      (byOutcome (fun world' => ∃ row, Changed tablePrefix .roles (.insert row) world world')
        (Unchanged world)) world := by
  refine wp_mono wp_createRole_inserted ?_
  rintro (exception | record) world' h
  · exact h
  · obtain ⟨row, -, hchanged⟩ := h
    exact ⟨row, hchanged⟩

/-- `deleteRole` removes the role with the given id, whatever that role is, and clears
the cache, or changes nothing. -/
theorem wp_deleteRole_removed {world : World} {roleId : JsNumber} :
    wp (nocodb faults).contract (deleteRole tablePrefix roleId)
      (byOutcome
        (fun world' => ∃ row middle, JsNumber.ofNat row.id = roleId ∧
          Changed tablePrefix .roles (.remove row) world middle ∧ Cleared none middle world')
        (Unchanged world)) world := by
  rw [deleteRole, wp_bind]
  refine wp_getTableByName (fun _ _ h => h) fun w₁ h₁ => ?_
  rw [onOk_ok]
  cases hfound : resolve tablePrefix world.tables SystemTable.roles.name with
  | none => exact h₁
  | some rolesTable =>
      rw [wp_bind]
      refine wp_delete_record h₁ hfound (fun _ _ h => h) ?_
      intro row w₂ hid hchanged
      rw [onOk_ok]
      refine wp_clearCache_cleared fun w₃ hcleared => ?_
      exact ⟨row, w₂, hid, hchanged, hcleared⟩

/-- `deleteRole` removes a role and clears the cache, or changes nothing. -/
theorem wp_deleteRole {world : World} {roleId : JsNumber} :
    wp (nocodb faults).contract (deleteRole tablePrefix roleId)
      (byOutcome
        (fun world' => ∃ row middle, Changed tablePrefix .roles (.remove row) world middle ∧
          Cleared none middle world')
        (Unchanged world)) world := by
  refine wp_mono wp_deleteRole_removed ?_
  rintro (exception | _) world' h
  · exact h
  · obtain ⟨row, middle, -, hchanged, hcleared⟩ := h
    exact ⟨row, middle, hchanged, hcleared⟩

end

end Roles
end NocoMiddleware
