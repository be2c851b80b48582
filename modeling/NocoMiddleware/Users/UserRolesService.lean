import Mathlib.Logic.Relation
import NocoMiddleware.Store.Changes

/-!
# `UserRolesService`

`assignRole`, `assignMultipleRoles` and `removeRole`, and what they change: a role
is assigned to a user that did not have it, or a row of the assignment is removed,
and each of these writes is followed by a `clearCache` of the user.
-/

namespace NocoMiddleware
namespace Users

open NocoMiddleware.Js NocoMiddleware.Filter NocoMiddleware.Tables NocoMiddleware.Store
open NocoMiddleware.Foundation

/-- `AssignRoleDto`. -/
structure AssignRoleDto where
  userId : JsNumber
  roleId : JsNumber
  deriving DecidableEq

/-- `AssignMultipleRolesDto`. -/
structure AssignMultipleRolesDto where
  userId : JsNumber
  roleIds : List JsNumber
  deriving DecidableEq

/-- The answer of `assignMultipleRoles`. -/
structure AssignedRoles where
  success : Bool
  assignedCount : Nat
  results : List NocoRecord

/-- The fields of a new assignment. -/
def assignmentData (userId roleId : JsNumber) (assignedAt : JsString) : Payload :=
  [(js "user_id", .number userId), (js "role_id", .number roleId),
    (js "assigned_at", .string assignedAt)]

section

variable (tablePrefix : JsString)

/-- `assignRole`. -/
def assignRole (dto : AssignRoleDto) : Service NocoRecord := do
  let userRolesTable ← getTableByName tablePrefix SystemTable.userRoles.name
  match userRolesTable with
  | none => throw (.notFound (js "User_roles table not found"))
  | some userRolesTable =>
      let filter ← Program.ofExcept
        (filterBoth (js "user_id") (.number dto.userId) (js "role_id") (.number dto.roleId))
      let existing ← findOne userRolesTable.id filter
      match existing with
      | some _ =>
          throw (.conflict (js "User " ++ dto.userId.text ++ js " already has role " ++
            dto.roleId.text))
      | none =>
          let assignedAt ← newDate
          let result ← create userRolesTable.id
            (assignmentData dto.userId dto.roleId assignedAt)
          clearCache (some dto.userId)
          return result

/-- One round of the loop of `assignMultipleRoles`: a conflict is skipped. -/
def assignNextRole (userId : JsNumber) (results : List NocoRecord) (roleId : JsNumber) :
    Service (List NocoRecord) :=
  tryCatch
    (do
      let result ← assignRole tablePrefix ⟨userId, roleId⟩
      return results ++ [result])
    fun error => if error.isConflict then pure results else throw error

/-- `assignMultipleRoles`. -/
def assignMultipleRoles (dto : AssignMultipleRolesDto) : Service AssignedRoles := do
  let results ← dto.roleIds.foldlM (assignNextRole tablePrefix dto.userId) []
  return ⟨true, results.length, results⟩

/-- `removeRole`. -/
def removeRole (userId roleId : JsNumber) : Service Unit := do
  let userRolesTable ← getTableByName tablePrefix SystemTable.userRoles.name
  match userRolesTable with
  | none => throw (.notFound (js "User_roles table not found"))
  | some userRolesTable =>
      let filter ← Program.ofExcept
        (filterBoth (js "user_id") (.number userId) (js "role_id") (.number roleId))
      let assignment ← findOne userRolesTable.id filter
      match assignment with
      | none =>
          throw (.notFound (js "Role " ++ roleId.text ++ js " is not assigned to user " ++
            userId.text))
      | some assignment =>
          let recordId ← Program.ofExcept (extractNumericId assignment)
          delete userRolesTable.id recordId
          clearCache (some userId)

end

/-! ## What the calls change -/

/-- The row is an assignment of the role to the user. -/
def IsAssignment (userId roleId : JsNumber) (row : Row) : Prop :=
  row.cell (js "user_id") = .number userId ∧ row.cell (js "role_id") = .number roleId

instance (userId roleId : JsNumber) (row : Row) : Decidable (IsAssignment userId roleId row) :=
  inferInstanceAs (Decidable (_ ∧ _))

/-- An assignment is inserted where there was none. -/
def Inserted (tablePrefix : JsString) (userId roleId : JsNumber) (world world' : World) :
    Prop :=
  (∀ row ∈ systemRows tablePrefix world .userRoles, ¬ IsAssignment userId roleId row) ∧
    ∃ row, IsAssignment userId roleId row ∧ row.cell (js "table_name") = .undefined ∧
      Changed tablePrefix .userRoles (.insert row) world world'

/-- A role is assigned, and the cache forgets the user. -/
def Assigned (tablePrefix : JsString) (userId roleId : JsNumber) (world world' : World) :
    Prop :=
  ∃ middle, Inserted tablePrefix userId roleId world middle ∧
    Cleared (some userId) middle world'

/-- The first assignment of the role is removed, and the cache forgets the user. -/
def Removed (tablePrefix : JsString) (userId roleId : JsNumber) (world world' : World) :
    Prop :=
  ∃ row middle, IsAssignment userId roleId row ∧
    Changed tablePrefix .userRoles (.remove row) world middle ∧
    Cleared (some userId) middle world'

/-- Some roles of a list are assigned, one after the other. -/
def AssignedSome (tablePrefix : JsString) (userId : JsNumber) (roleIds : List JsNumber) :
    World → World → Prop :=
  Relation.ReflTransGen fun world world' =>
    Unchanged world world' ∨ ∃ roleId ∈ roleIds, Assigned tablePrefix userId roleId world world'

section

variable {faults : Bool} {tablePrefix : JsString}

theorem satisfies_isAssignment (userId roleId : JsNumber) (row : Row) :
    (satisfies row (eqCondition (js "user_id") (.number userId)) &&
        satisfies row (eqCondition (js "role_id") (.number roleId))) = true ↔
      IsAssignment userId roleId row := by
  rw [Bool.and_eq_true, satisfies_eqCondition_number (by decide),
    satisfies_eqCondition_number (by decide), IsAssignment]

/-- Filters are built for finite ids only. -/
theorem finite_of_filterBoth {userId roleId : JsNumber} {filter : JsString}
    (h : filterBoth (js "user_id") (.number userId) (js "role_id") (.number roleId) =
      .ok filter) : (∃ x, userId = .finite x) ∧ ∃ x, roleId = .finite x := by
  obtain ⟨left, hleft, h⟩ := bind_eq_ok.mp h
  obtain ⟨right, hright, -⟩ := bind_eq_ok.mp h
  exact ⟨finite_of_filterEq hleft, finite_of_filterEq hright⟩

/-- The filter on the ids of a user and of a role is built exactly when both are written
without an exponent. -/
theorem filterBoth_assignment_iff (userId roleId : Nat) :
    (∃ filter, filterBoth (js "user_id") (.number (.ofNat userId)) (js "role_id")
        (.number (.ofNat roleId)) = .ok filter) ↔ userId < 10 ^ 21 ∧ roleId < 10 ^ 21 := by
  have huser : filterFieldPattern.test (js "user_id") = true := by decide
  have hrole : filterFieldPattern.test (js "role_id") = true := by decide
  exact filterBoth_ids_iff huser hrole userId roleId

/-- A row with the cells of an assignment is one, and is no permission. -/
theorem isAssignment_of_cells {userId roleId : JsNumber} {row : Row} {rest : Payload}
    (hfinite : (∃ x, userId = .finite x) ∧ ∃ x, roleId = .finite x)
    (hcells : row.cells = toCells
      ((js "user_id", .number userId) :: (js "role_id", .number roleId) :: rest))
    (hrest : (toCells rest).lookup (js "table_name") = none) :
    IsAssignment userId roleId row ∧ row.cell (js "table_name") = .undefined := by
  obtain ⟨⟨x, rfl⟩, y, rfl⟩ := hfinite
  refine ⟨⟨?_, ?_⟩, ?_⟩
  · exact (Row.cell_of_cells hcells (by decide)).trans rfl
  · exact (Row.cell_of_cells hcells (by decide)).trans rfl
  · rw [Row.cell_of_cells hcells (by decide)]
    show (((toCells rest).lookup (js "table_name")).map JsonScalar.toValue).getD .undefined =
      .undefined
    rw [hrest]
    rfl

/-- How `assignRole` ends: the role is assigned where it was not, or nothing changes; it ends
with a conflict only where the role is assigned already. -/
def AssignOutcome (tablePrefix : JsString) (dto : AssignRoleDto) (world : World) :
    Except Exception NocoRecord → World → Prop
  | .ok _, world' => Assigned tablePrefix dto.userId dto.roleId world world'
  | .error exception, world' =>
      Unchanged world world' ∧ (exception.isConflict = true →
        ∃ row ∈ systemRows tablePrefix world .userRoles, IsAssignment dto.userId dto.roleId row)

theorem assignOutcome_of_error {dto : AssignRoleDto} {world world' : World}
    {exception : Exception} (hconflict : exception.isConflict = false)
    (h : Unchanged world world') :
    AssignOutcome tablePrefix dto world (.error exception) world' := by
  refine ⟨h, fun hno => ?_⟩
  rw [hconflict] at hno
  contradiction

theorem wp_assignRole_outcome {world : World} {dto : AssignRoleDto} :
    wp (nocodb faults).contract (assignRole tablePrefix dto)
      (AssignOutcome tablePrefix dto world) world := by
  rw [assignRole, wp_bind]
  refine wp_getTableByName (fun _ _ h => assignOutcome_of_error rfl h) fun w₁ h₁ => ?_
  rw [onOk_ok]
  cases hfound : resolve tablePrefix world.tables SystemTable.userRoles.name with
  | none => exact assignOutcome_of_error rfl h₁
  | some userRolesTable =>
      simp only [wp_bind, wp_ofExcept]
      cases hfilter : filterBoth (js "user_id") (.number dto.userId) (js "role_id")
          (.number dto.roleId) with
      | error exception => exact assignOutcome_of_error (isConflict_of_filterBoth hfilter) h₁
      | ok filter =>
          rw [onOk_ok, wp_bind]
          refine wp_findOne (selectRows_filterBoth hfilter) (satisfies_isAssignment _ _)
            (fun _ _ h => assignOutcome_of_error rfl (h₁.trans h)) ?_ ?_
          · intro habsent w₂ h₂
            rw [onOk_ok, wp_bind]
            refine wp_newDate fun assignedAt w₃ h₃ => ?_
            have h := (h₁.trans h₂).trans h₃
            rw [onOk_ok, wp_bind]
            refine wp_create_changed h hfound (fun _ _ h' => assignOutcome_of_error rfl h') ?_
            intro row w₄ hcells hchanged
            rw [onOk_ok, wp_bind]
            refine wp_clearCache_cleared fun w₅ hcleared => ?_
            obtain ⟨hassignment, hname⟩ := isAssignment_of_cells
              (finite_of_filterBoth hfilter) hcells rfl
            refine ⟨w₄, ⟨?_, row, hassignment, hname, hchanged⟩, hcleared⟩
            rwa [systemRows_eq hfound, ← h₁.rows]
          · intro row hrow hassignment w₂ h₂
            refine ⟨h₁.trans h₂, fun _ => ⟨row, ?_, hassignment⟩⟩
            rwa [systemRows_eq hfound, ← h₁.rows]

/-- `assignRole` assigns the role where it was not assigned, or changes nothing. -/
theorem wp_assignRole {world : World} {dto : AssignRoleDto} :
    wp (nocodb faults).contract (assignRole tablePrefix dto)
      (byOutcome (Assigned tablePrefix dto.userId dto.roleId world) (Unchanged world))
      world := by
  refine wp_mono wp_assignRole_outcome fun result world' houtcome => ?_
  cases result with
  | ok record => exact houtcome
  | error exception => exact houtcome.1

theorem wp_assignNextRole {world : World} {userId roleId : JsNumber}
    {results : List NocoRecord} {roleIds : List JsNumber} (hmem : roleId ∈ roleIds) :
    wp (nocodb faults).contract (assignNextRole tablePrefix userId results roleId)
      (fun _ => AssignedSome tablePrefix userId roleIds world) world := by
  rw [assignNextRole, wp_tryCatch, wp_bind]
  refine wp_mono wp_assignRole fun result w₁ h₁ => ?_
  cases result with
  | ok record => exact .single (Or.inr ⟨roleId, hmem, h₁⟩)
  | error error =>
      show wp _ _ _ w₁
      split
      · exact .single (Or.inl h₁)
      · exact .single (Or.inl h₁)

/-- `assignMultipleRoles` assigns some of the roles, also when it fails. -/
theorem wp_assignMultipleRoles {world : World} {dto : AssignMultipleRolesDto} :
    wp (nocodb faults).contract (assignMultipleRoles tablePrefix dto)
      (fun _ => AssignedSome tablePrefix dto.userId dto.roleIds world) world := by
  rw [assignMultipleRoles, wp_bind]
  refine wp_foldlM
    (fun _ remaining world' => (∀ roleId ∈ remaining, roleId ∈ dto.roleIds) ∧
      AssignedSome tablePrefix dto.userId dto.roleIds world world') ?_ ?_
    ⟨fun _ h => h, Relation.ReflTransGen.refl⟩
  · rintro results roleId remaining w₁ ⟨hremaining, h₁⟩
    refine wp_mono (wp_assignNextRole (hremaining roleId List.mem_cons_self)) ?_
    intro result w₂ h₂
    cases result with
    | ok next => exact ⟨fun id hid => hremaining id (List.mem_cons_of_mem _ hid), h₁.trans h₂⟩
    | error exception => exact h₁.trans h₂
  · exact fun _ _ h => h.2

/-- `removeRole` removes a row of the assignment, or changes nothing. -/
theorem wp_removeRole {world : World} {userId roleId : JsNumber} :
    wp (nocodb faults).contract (removeRole tablePrefix userId roleId)
      (byOutcome (Removed tablePrefix userId roleId world) (Unchanged world)) world := by
  rw [removeRole, wp_bind]
  refine wp_getTableByName (fun _ _ h => h) fun w₁ h₁ => ?_
  rw [onOk_ok]
  cases hfound : resolve tablePrefix world.tables SystemTable.userRoles.name with
  | none => exact h₁
  | some userRolesTable =>
      simp only [wp_bind, wp_ofExcept]
      cases hfilter : filterBoth (js "user_id") (.number userId) (js "role_id")
          (.number roleId) with
      | error exception => exact h₁
      | ok filter =>
          rw [onOk_ok, wp_bind]
          refine wp_findOne (selectRows_filterBoth hfilter)
            (satisfies_isAssignment _ _) (fun _ _ h => h₁.trans h) ?_ ?_
          · exact fun _ w₂ h₂ => h₁.trans h₂
          · intro row hmem hassignment w₂ h₂
            have h := h₁.trans h₂
            rw [h₁.rows] at hmem
            simp only [extractNumericId_flattenRecord, wp_ofExcept, onOk_ok, wp_bind]
            refine wp_delete_changed h hfound hmem (fun _ _ h' => h') ?_
            intro w₃ hchanged
            rw [onOk_ok]
            refine wp_clearCache_cleared fun w₄ hcleared => ?_
            exact ⟨row, w₃, hassignment, hchanged, hcleared⟩

end

end Users
end NocoMiddleware
